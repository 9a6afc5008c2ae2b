import Mathlib.Data.Fintype.Card
import Stencil.Script.Heap

/-! # How deep a value is nested

A conversion goes down into the parts of a value, and no further than a bound that a heap gives: one
more than the number of its arrays and objects.  The bound cuts nothing off if the value does not
hold itself.  Such a value is nested to some depth, the values inside it to every lesser one, and no
two of them are the same array or object; so the heap has as many of these.
-/
namespace Stencil.Script.Heap

variable (h : Heap)

/-- The values that a value holds: the items of an array and the fields of an object. -/
def parts : Value → List Value
  | .array place => (h.array place).toList
  | .object place => (h.object place).map (·.2)
  | _ => []

/-- A value is nested at most some levels deep. One without parts is nested one level. -/
def Nests : (levels : Nat) → Value → Prop
  | 0, _ => False
  | n + 1, v => ∀ part ∈ h.parts v, Nests n part

variable {h} {m n : Nat} {v : Value}

theorem Nests.mono (hv : h.Nests n v) (hle : n ≤ m) : h.Nests m v := by
  induction n generalizing m v with
  | zero => exact hv.elim
  | succ n ih =>
    obtain _ | m := m
    · exact absurd hle (Nat.not_succ_le_zero n)
    · exact fun part hpart => ih (hv part hpart) (Nat.le_of_succ_le_succ hle)

/-! ## The bound of a heap -/

/-- A value with parts is at a place of the heap. -/
theorem exists_place_of_parts (hparts : h.parts v ≠ []) :
    (∃ place < h.arrays.size, v = .array place) ∨ ∃ place < h.objects.size, v = .object place := by
  cases v with
  | array place =>
    refine .inl ⟨place, Nat.lt_of_not_le fun hle => hparts ?_, rfl⟩
    rw [parts, array, Array.getD_eq_getD_getElem?, Array.getElem?_eq_none hle]
    rfl
  | object place =>
    refine .inr ⟨place, Nat.lt_of_not_le fun hle => hparts ?_, rfl⟩
    rw [parts, object, Array.getD_eq_getD_getElem?, Array.getElem?_eq_none hle]
    rfl
  | _ => exact absurd rfl hparts

variable (h) in
/-- The number of an array or an object among all of a heap, the objects behind the arrays. -/
def index : Value → Nat
  | .array place => place
  | .object place => h.arrays.size + place
  | _ => 0

theorem index_lt (hparts : h.parts v ≠ []) : h.index v < h.size := by
  unfold size
  rcases exists_place_of_parts hparts with ⟨place, hplace, rfl⟩ | ⟨place, hplace, rfl⟩
  · exact Nat.lt_add_right _ hplace
  · exact Nat.add_lt_add_left hplace _

/-- Values with parts that have the same number are the same. -/
theorem eq_of_index {w : Value} (hv : h.parts v ≠ []) (hw : h.parts w ≠ [])
    (hindex : h.index v = h.index w) : v = w := by
  rcases exists_place_of_parts hv with ⟨i, hi, rfl⟩ | ⟨i, hi, rfl⟩ <;>
    rcases exists_place_of_parts hw with ⟨j, hj, rfl⟩ | ⟨j, hj, rfl⟩ <;>
    simp only [index] at hindex
  · rw [hindex]
  · omega
  · omega
  · rw [Nat.add_left_cancel hindex]

variable (h) in
/-- A value is nested one level more than a number, and not less. -/
structure NestsJust (n : Nat) (v : Value) : Prop where
  nests : h.Nests (n + 1) v
  least : ¬ h.Nests n v

/-- A value that is nested more than one level has a part that is nested one level less. -/
theorem NestsJust.exists_part (hv : h.NestsJust (n + 1) v) :
    ∃ part ∈ h.parts v, h.NestsJust n part := by
  have hleast := hv.least
  simp only [Nests, not_forall] at hleast
  obtain ⟨part, hpart, hnot⟩ := hleast
  exact ⟨part, hpart, hv.nests part hpart, hnot⟩

/-- Inside a value there is one of every lesser depth. -/
theorem NestsJust.exists_of_le (hv : h.NestsJust n v) (hle : m ≤ n) : ∃ w, h.NestsJust m w := by
  induction n generalizing v with
  | zero => exact ⟨v, Nat.le_zero.mp hle ▸ hv⟩
  | succ n ih =>
    rcases Nat.eq_or_lt_of_le hle with rfl | hlt
    · exact ⟨v, hv⟩
    · obtain ⟨part, -, hpart⟩ := hv.exists_part
      exact ih hpart (Nat.le_of_lt_succ hlt)

/-- A value is nested to one depth only. -/
theorem NestsJust.unique (hm : h.NestsJust m v) (hn : h.NestsJust n v) : m = n := by
  refine Nat.le_antisymm (Nat.le_of_not_lt fun hlt => ?_) (Nat.le_of_not_lt fun hlt => ?_)
  · exact hm.least (hn.nests.mono hlt)
  · exact hn.least (hm.nests.mono hlt)

/-- What is nested has an array or an object of its own for each level but the innermost. -/
theorem NestsJust.le_size (hv : h.NestsJust n v) : n ≤ h.size := by
  have hinside : ∀ i : Fin n, ∃ w, h.NestsJust (i + 1) w := fun i => hv.exists_of_le i.isLt
  choose inside hjust using hinside
  have hparts : ∀ i, h.parts (inside i) ≠ [] := fun i hnil => by
    obtain ⟨part, hpart, -⟩ := (hjust i).exists_part
    rw [hnil] at hpart
    cases hpart
  have hinjective : Function.Injective fun i : Fin n =>
      (⟨h.index (inside i), index_lt (hparts i)⟩ : Fin h.size) := by
    intro i j hij
    have hsame := eq_of_index (hparts i) (hparts j) (Fin.mk.inj hij)
    have hlevels := (hsame ▸ hjust i).unique (hjust j)
    exact Fin.ext (Nat.succ.inj hlevels)
  simpa using Fintype.card_le_of_injective _ hinjective

/-- **The bound of a heap is enough** for all values that are nested at all. -/
theorem Nests.within_size (hv : h.Nests n v) : h.Nests (h.size + 1) v := by
  induction n with
  | zero => exact hv.elim
  | succ n ih =>
    by_cases hless : h.Nests n v
    · exact ih hless
    · have hjust : h.NestsJust n v := ⟨hv, hless⟩
      exact hv.mono (Nat.succ_le_succ hjust.le_size)

/-! ## Conversions -/

theorem mem_parts_of_get? {place : Nat} {key : String} {part : Value}
    (hget : (h.object place).get? key = some part) : part ∈ h.parts (.object place) := by
  obtain ⟨front, back, hfields, -⟩ := List.lookup_eq_some_iff.mp hget
  rw [parts, hfields]
  simp

/-- Both parts of an error are among its fields. -/
theorem mem_parts_of_errorParts? {name message : Value}
    (herror : h.errorParts? v = some (name, message)) :
    name ∈ h.parts v ∧ message ∈ h.parts v := by
  cases v with
  | object place =>
    simp only [errorParts?, Option.bind_eq_bind, Option.bind_eq_some_iff, Option.pure_def] at herror
    obtain ⟨first, hname, second, hmessage, heq⟩ := herror
    obtain ⟨rfl, rfl⟩ := Prod.mk.inj (Option.some.inj heq)
    exact ⟨mem_parts_of_get? hname, mem_parts_of_get? hmessage⟩
  | _ => cases herror

/-- The text of a value is found in as many levels as it is nested. -/
theorem Nests.textWithin_eq (hv : h.Nests n v) (hle : n ≤ m) :
    h.textWithin m v = h.textWithin n v := by
  induction n generalizing m v with
  | zero => exact hv.elim
  | succ n ih =>
    obtain _ | m := m
    · exact absurd hle (Nat.not_succ_le_zero n)
    · have hparts : ∀ part ∈ h.parts v, h.textWithin m part = h.textWithin n part :=
        fun part hpart => ih (hv part hpart) (Nat.le_of_succ_le_succ hle)
      cases v with
      | array place =>
        have hitems : ((h.array place).toList.map fun item =>
              if item.isNullish then "" else h.textWithin m item) =
            (h.array place).toList.map fun item =>
              if item.isNullish then "" else h.textWithin n item :=
          List.map_congr_left fun item hitem => by rw [hparts item hitem]
        rw [textWithin, textWithin, hitems]
      | object place =>
        simp only [textWithin]
        split
        · rename_i name message herror
          obtain ⟨hname, hmessage⟩ := mem_parts_of_errorParts? herror
          rw [hparts name hname, hparts message hmessage]
        · rfl
      | function place name => cases name <;> rfl
      | _ => rfl

/-- So is its number, -/
theorem Nests.numberWithin_eq (hv : h.Nests n v) (hle : n ≤ m) :
    h.numberWithin m v = h.numberWithin n v := by
  induction n generalizing m v with
  | zero => exact hv.elim
  | succ n ih =>
    obtain _ | m := m
    · exact absurd hle (Nat.not_succ_le_zero n)
    · cases v with
      | array place =>
        simp only [numberWithin]
        split
        · rfl
        · split
          · rename_i hone
            have hsize : 0 < (h.array place).size := by
              rw [beq_iff_eq.mp hone]
              exact Nat.one_pos
            have hitem : (h.array place).getD 0 .undefined ∈ h.parts (.array place) := by
              rw [Array.getD_eq_getD_getElem?, Array.getElem?_eq_getElem hsize]
              exact Array.getElem_mem_toList hsize
            exact ih (hv _ hitem) (Nat.le_of_succ_le_succ hle)
          · rfl
      | _ => rfl

/-- and its JSON form. -/
theorem Nests.jsonWithin_eq (hv : h.Nests n v) (hle : n ≤ m) :
    h.jsonWithin m v = h.jsonWithin n v := by
  induction n generalizing m v with
  | zero => exact hv.elim
  | succ n ih =>
    obtain _ | m := m
    · exact absurd hle (Nat.not_succ_le_zero n)
    · have hparts : ∀ part ∈ h.parts v, h.jsonWithin m part = h.jsonWithin n part :=
        fun part hpart => ih (hv part hpart) (Nat.le_of_succ_le_succ hle)
      cases v with
      | array place =>
        have hitems : ((h.array place).toList.map fun item => (h.jsonWithin m item).getD .null) =
            (h.array place).toList.map fun item => (h.jsonWithin n item).getD .null :=
          List.map_congr_left fun item hitem => by rw [hparts item hitem]
        rw [jsonWithin, jsonWithin, hitems]
      | object place =>
        have hfields : ((h.object place).filterMap fun field =>
              (h.jsonWithin m field.2).map (field.1, ·)) =
            (h.object place).filterMap fun field => (h.jsonWithin n field.2).map (field.1, ·) :=
          List.filterMap_congr fun field hfield => by
            rw [hparts field.2 (List.mem_map.mpr ⟨field, hfield, rfl⟩)]
        simp only [jsonWithin, hfields]
      | _ => rfl

/-- **Conversions go no deeper than a value is nested**, and are not cut off by the bound. -/
theorem Nests.conversions_eq (hv : h.Nests n v) :
    h.text v = h.textWithin n v ∧ h.number v = h.numberWithin n v ∧
      h.json? v = h.jsonWithin n v := by
  have hsize := hv.within_size
  rcases Nat.le_total n (h.size + 1) with hle | hle
  · exact ⟨hv.textWithin_eq hle, hv.numberWithin_eq hle, hv.jsonWithin_eq hle⟩
  · exact ⟨(hsize.textWithin_eq hle).symm, (hsize.numberWithin_eq hle).symm,
      (hsize.jsonWithin_eq hle).symm⟩

end Stencil.Script.Heap
