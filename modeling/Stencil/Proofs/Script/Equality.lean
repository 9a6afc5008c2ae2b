import Mathlib
import Stencil.Proofs.Script.Lockstep
import Stencil.Proofs.Script.Writing

/-! # Laws of equality

Both equalities are symmetric, the one without conversion is transitive as well, and what is equal
without conversion is equal with it.  A value is found wherever it stands if it is equal to itself.
That fails for not-a-number, as it should, and for the methods that are read off a value and kept.
-/
namespace Stencil.Script

/-! ## Doubles -/

theorem float_beq_symm {x y : Float} (h : (x == y) = true) : (y == x) = true := by
  rw [Float.beq_iff_ne_nan_and_eq] at h ⊢
  obtain ⟨hx, hy, rfl | ⟨rfl, rfl⟩ | ⟨rfl, rfl⟩⟩ := h
  · exact ⟨hy, hx, .inl rfl⟩
  · exact ⟨hy, hx, .inr (.inr ⟨rfl, rfl⟩)⟩
  · exact ⟨hy, hx, .inr (.inl ⟨rfl, rfl⟩)⟩

theorem float_beq_comm (x y : Float) : (x == y) = (y == x) :=
  Bool.eq_iff_iff.mpr ⟨float_beq_symm, float_beq_symm⟩

theorem float_beq_trans {x y z : Float} (h : (x == y) = true) (h' : (y == z) = true) :
    (x == z) = true := by
  rw [Float.beq_iff_ne_nan_and_eq] at *
  obtain ⟨hx, -, hxy⟩ := h
  obtain ⟨-, hz, hyz⟩ := h'
  refine ⟨hx, hz, ?_⟩
  rcases hxy with rfl | ⟨rfl, rfl⟩ | ⟨rfl, rfl⟩
  · exact hyz
  · rcases hyz with rfl | ⟨-, rfl⟩ | ⟨-, rfl⟩
    · exact .inr (.inl ⟨rfl, rfl⟩)
    · exact .inr (.inl ⟨rfl, rfl⟩)
    · exact .inl rfl
  · rcases hyz with rfl | ⟨-, rfl⟩ | ⟨-, rfl⟩
    · exact .inr (.inr ⟨rfl, rfl⟩)
    · exact .inl rfl
    · exact .inr (.inr ⟨rfl, rfl⟩)

/-! ## Values -/

namespace Value

/-- Equality without conversion is equality of values, but for the names of functions and for
numbers, which are compared as numbers, and methods, which are equal to none. -/
theorem strictEquals_cases {a b : Value} (h : a.strictEquals b = true) :
    (∃ x y, a = .number x ∧ b = .number y ∧ (x == y) = true) ∨
    (∃ place name other, a = .function place name ∧ b = .function place other) ∨
    (a = b ∧ (∀ x, a ≠ .number x) ∧ (∀ place name, a ≠ .function place name) ∧
      ∀ receiver m, a ≠ .method receiver m) := by
  unfold strictEquals at h
  split at h
  case h_4 x y => exact .inl ⟨x, y, rfl, rfl, h⟩
  case h_8 p name q other => exact .inr (.inl ⟨p, name, other, rfl, by rw [beq_iff_eq.mp h]⟩)
  case h_10 => cases h
  all_goals exact .inr (.inr (by simp_all))

theorem strictEquals_symm {a b : Value} (h : a.strictEquals b = true) :
    b.strictEquals a = true := by
  obtain ⟨x, y, rfl, rfl, hxy⟩ | ⟨place, name, other, rfl, rfl⟩ | ⟨rfl, -⟩ := strictEquals_cases h
  · exact float_beq_symm hxy
  · exact beq_self_eq_true place
  · exact h

theorem strictEquals_comm (a b : Value) : a.strictEquals b = b.strictEquals a :=
  Bool.eq_iff_iff.mpr ⟨strictEquals_symm, strictEquals_symm⟩

theorem strictEquals_trans {a b c : Value} (h : a.strictEquals b = true)
    (h' : b.strictEquals c = true) : a.strictEquals c = true := by
  obtain ⟨x, y, rfl, rfl, hxy⟩ | ⟨place, name, other, rfl, rfl⟩ | ⟨rfl, -⟩ := strictEquals_cases h
  · obtain ⟨_, z, hy, rfl, hyz⟩ | ⟨_, _, _, hy, -⟩ | ⟨-, hy, -⟩ := strictEquals_cases h'
    · obtain rfl := Value.number.inj hy
      exact float_beq_trans hxy hyz
    · cases hy
    · exact absurd rfl (hy y)
  · obtain ⟨_, _, hb, -⟩ | ⟨_, _, last, hb, rfl⟩ | ⟨-, -, hb, -⟩ := strictEquals_cases h'
    · cases hb
    · obtain ⟨rfl, rfl⟩ := Value.function.inj hb
      exact beq_self_eq_true place
    · exact absurd rfl (hb place other)
  · exact h'

/-- The number that is not-a-number. -/
def IsNaN (v : Value) : Prop := v = .number .nan

/-- A method that was read off a value. -/
def IsMethod (v : Value) : Prop := ∃ receiver m, v = .method receiver m

theorem strictEquals_self_iff (v : Value) :
    v.strictEquals v = true ↔ ¬ v.IsNaN ∧ ¬ v.IsMethod := by
  unfold IsNaN IsMethod
  cases v with
  | number x =>
    show (x == x) = true ↔ _
    simp
  | method receiver m => simp [strictEquals]
  | _ => simp [strictEquals]

end Value

namespace Heap

variable {h : Heap}

/-- Two values are compared as numbers, as texts or without conversion, in either order alike. -/
theorem convertedEquals_cases (h : Heap) (a b : Value) :
    (h.convertedEquals a b = (h.number a == h.number b) ∧
      h.convertedEquals b a = (h.number b == h.number a)) ∨
    (h.convertedEquals a b = (h.text a == h.text b) ∧
      h.convertedEquals b a = (h.text b == h.text a)) ∨
    (h.convertedEquals a b = a.strictEquals b ∧ h.convertedEquals b a = b.strictEquals a) := by
  cases a <;> cases b <;> first
    | exact .inr (.inr ⟨rfl, rfl⟩)
    | exact .inl ⟨rfl, rfl⟩
    | exact .inr (.inl ⟨rfl, rfl⟩)

theorem convertedEquals_comm (a b : Value) : h.convertedEquals a b = h.convertedEquals b a := by
  obtain ⟨hab, hba⟩ | ⟨hab, hba⟩ | ⟨hab, hba⟩ := h.convertedEquals_cases a b
  · rw [hab, hba, float_beq_comm]
  · rw [hab, hba, BEq.comm]
  · rw [hab, hba, Value.strictEquals_comm]

theorem looseEquals_comm (a b : Value) : h.looseEquals a b = h.looseEquals b a := by
  rw [looseEquals, looseEquals, Bool.or_comm, Bool.and_comm, convertedEquals_comm]

/-- Conversion makes no equal values differ. -/
theorem looseEquals_of_strictEquals {a b : Value} (hab : a.strictEquals b = true) :
    h.looseEquals a b = true := by
  cases a with
  | boolean x =>
    obtain ⟨_, _, ha, -⟩ | ⟨_, _, _, ha, -⟩ | ⟨rfl, -⟩ := Value.strictEquals_cases hab
    · cases ha
    · cases ha
    · have hself : ((if x then 1.0 else 0.0 : Float) == if x then 1.0 else 0.0) = true := by
        cases x <;> decide
      exact hself
  | _ =>
    cases b <;> first
      | exact hab
      | cases hab

end Heap

/-! ## Finding values -/

variable {v : Value} {m m' m'' : Machine}

/-- A name with a value that is equal to itself is equal to itself. -/
theorem Runner.name_strictEquals_itself {source : List Char} {bound : Nat} (depth : Nat)
    (span first second : Span) {name : String} {scope : Nat}
    (hname : m.scopes.lookup scope name = some v) :
    (deep source bound (depth + 2)).expression
      (.binary span .strictEqual (.name first name) (.name second name)) scope m =
        .ok (.boolean (v.strictEquals v)) m := by
  show ((deep source bound (depth + 1)).expression (.name first name) scope >>= fun a => do
    let b ← (deep source bound (depth + 1)).expression (.name second name) scope
    binaryValue .strictEqual a b span.start : Exec Value) m = _
  rw [bind_eq_ok (expression_name hname), bind_eq_ok (expression_name hname)]
  rfl

/-- Behind cases that do not match, a case whose test is equal to the value matches. -/
theorem Runner.matching_append (r : Runner) {w : Value} {scope : Nat} {e : Expr}
    {list : List Stmt} {before : List Case} (after : List Case)
    (hbefore : r.matching v scope before m = .ok none m')
    (he : r.expression e scope m' = .ok w m'') (hequal : w.strictEquals v = true) :
    r.matching v scope (before ++ .mk (some e) list :: after) m =
      .ok (some (.mk (some e) list :: after)) m'' := by
  induction before generalizing m with
  | nil =>
    cases hbefore
    rw [List.nil_append, matching, bind_apply, he, goOn, if_pos hequal]
    rfl
  | cons c before ih =>
    obtain ⟨test?, body⟩ := c
    cases test? with
    | none => exact ih hbefore
    | some test =>
      obtain ⟨a, n, htest, hrest⟩ := exec_bind_eq_ok hbefore
      rw [List.cons_append, matching, bind_apply, htest, goOn]
      by_cases ha : a.strictEquals v = true
      · rw [if_pos ha] at hrest; cases hrest
      · rw [if_neg ha] at hrest ⊢
        exact ih hrest

/-- A value is found wherever a script looks for it among values that it is one of. -/
structure Value.IsFound (v : Value) : Prop where
  /-- A name with this value is equal to itself. -/
  compared (source : List Char) (bound depth : Nat) (span first second : Span) (name : String)
    (scope : Nat) (m : Machine) : m.scopes.lookup scope name = some v →
    (Runner.deep source bound (depth + 2)).expression
      (.binary span .strictEqual (.name first name) (.name second name)) scope m =
        .ok (.boolean true) m
  /-- A selection takes the case whose test has this value, if none before it matches. -/
  selected (r : Runner) (scope : Nat) (e : Expr) (list : List Stmt) (before after : List Case)
    (m m' m'' : Machine) : r.matching v scope before m = .ok none m' →
    r.expression e scope m' = .ok v m'' →
    r.matching v scope (before ++ .mk (some e) list :: after) m =
      .ok (some (.mk (some e) list :: after)) m''
  included (r : Runner) (array place : Nat) (m : Machine) : v ∈ m.heap.array array →
    r.arrayMethod array .includes [v] place m = .ok (.boolean true) m
  /-- The index is that of the first item that is equal to the value. -/
  located (r : Runner) (array place n : Nat) (m : Machine) : (m.heap.array array)[n]? = some v →
    ∃ k ≤ n, ∃ w, (m.heap.array array)[k]? = some w ∧ w.strictEquals v = true ∧
      r.arrayMethod array .indexOf [v] place m = .ok (.number (Float.ofNat k)) m

theorem isFound_of_strictEquals (h : v.strictEquals v = true) : v.IsFound where
  compared source bound depth span first second name scope m hname := by
    rw [Runner.name_strictEquals_itself depth span first second hname, h]
  selected r scope e list before after m m' m'' hbefore he :=
    r.matching_append after hbefore he h
  included r array place m hv := by
    have hany : (m.heap.array array).any (·.strictEquals v) = true :=
      Array.any_eq_true'.mpr ⟨v, hv, h⟩
    show EStateM.Result.ok (Value.boolean ((m.heap.array array).any (·.strictEquals v))) m = _
    rw [hany]
  located r array place n m hn := by
    obtain ⟨hsize, hitem⟩ := Array.getElem?_eq_some_iff.mp hn
    cases hfind : (m.heap.array array).findIdx? (·.strictEquals v) with
    | none =>
      have hnone := Array.findIdx?_eq_none_iff.mp hfind v (hitem ▸ Array.getElem_mem hsize)
      rw [h] at hnone
      cases hnone
    | some k =>
      obtain ⟨hk, hequal, hfirst⟩ := Array.findIdx?_eq_some_iff_getElem.mp hfind
      refine ⟨k, ?_, _, Array.getElem?_eq_getElem hk, hequal, ?_⟩
      · by_contra hlt
        exact hfirst n (by omega) (by rwa [hitem])
      · have hitems : itemsOf array m = .ok (m.heap.array array) m := rfl
        rw [Runner.arrayMethod, bind_eq_ok hitems, show argument [v] 0 = v from rfl, hfind]
        rfl

/-- What is found in an array is equal to itself. -/
theorem Value.IsFound.strictEquals_self (h : v.IsFound) : v.strictEquals v = true := by
  let m : Machine := { Machine.start ⟨none⟩ with heap := ⟨#[#[v]], #[]⟩ }
  have hmem : v ∈ m.heap.array 0 := Array.mem_singleton.mpr rfl
  have hany : EStateM.Result.ok (Value.boolean (#[v].any (·.strictEquals v))) m =
      .ok (.boolean true) m := h.included (.deep [] 0 0) 0 0 m hmem
  injection hany with hany
  simpa using hany

/-! ## The laws -/

/-- The laws of equality in a heap. -/
structure EqualityLaws (h : Heap) : Prop where
  strict_symmetric (a b : Value) : a.strictEquals b = b.strictEquals a
  loose_symmetric (a b : Value) : h.looseEquals a b = h.looseEquals b a
  strict_transitive (a b c : Value) :
    a.strictEquals b = true → b.strictEquals c = true → a.strictEquals c = true
  loose_of_strict (a b : Value) : a.strictEquals b = true → h.looseEquals a b = true
  /-- All values are equal to themselves, but not-a-number and methods that were read off a
  value. -/
  equal_iff (v : Value) : v.strictEquals v = true ↔ ¬ v.IsNaN ∧ ¬ v.IsMethod
  /-- The values that are found where they are, are those that are equal to themselves. -/
  found_iff (v : Value) : v.IsFound ↔ v.strictEquals v = true
  /-- Those two are equal to nothing. -/
  lost (v w : Value) : v.IsNaN ∨ v.IsMethod → v.strictEquals w = false

/-- **Both equalities are symmetric, the strict one is transitive and implies the other, and every
value is equal to itself** but not-a-number and methods that were read off a value, which are equal
to nothing. -/
theorem equality_laws (h : Heap) : EqualityLaws h where
  strict_symmetric := Value.strictEquals_comm
  loose_symmetric := h.looseEquals_comm
  strict_transitive _ _ _ := Value.strictEquals_trans
  loose_of_strict _ _ := Heap.looseEquals_of_strictEquals
  equal_iff := Value.strictEquals_self_iff
  found_iff v := ⟨Value.IsFound.strictEquals_self, isFound_of_strictEquals⟩
  lost v w hv := by
    refine Bool.eq_false_iff.mpr fun hequal => ?_
    -- what is equal to something is equal to itself
    have hself := Value.strictEquals_trans hequal (Value.strictEquals_symm hequal)
    obtain ⟨hnan, hmethod⟩ := (Value.strictEquals_self_iff v).mp hself
    exact hv.elim hnan hmethod

/-- A method that a script keeps in a variable should be equal to itself, and is not. -/
theorem kept_method_is_unequal :
    runScript "let m = [].push; write(m === m);" ⟨"/main.exp", .null⟩ ⟨none⟩ = .ok "false" ∧
    ∃ v : Value, ¬ v.IsNaN ∧ v.strictEquals v = false :=
  ⟨by decide +kernel, .method (.array 0) .push, by simp [Value.IsNaN], rfl⟩

end Stencil.Script
