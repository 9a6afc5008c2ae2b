import Stencil.Proofs.Script.Hoisting

/-! # What an assignment changes

The scopes of a run stand in one tree: each is made inside a scope that is there already, and all of
them inside the one that is there from the start.  An assignment looks for a name from a scope
outward, so it finds what a reader of the name would find, and sets it there; a name that is not
found is set in the scope around all others.  Nothing else is changed, and a reader sees the change
only if it found what the assignment has found.
-/
namespace Stencil.Script

namespace Scopes

variable {scopes : Scopes} {place owner : Nat} {name other : String} {binding : Binding}

/-! ## The scopes of a run -/

/-- The scopes that making scopes and setting names leads to. -/
inductive Reachable : Scopes → Prop
  | initial : Reachable initial
  | child {scopes : Scopes} {parent : Nat} (h : Reachable scopes) (hparent : parent < scopes.size)
    (isFunction : Bool) : Reachable (scopes.child parent isFunction).2
  | declare {scopes : Scopes} {place : Nat} (h : Reachable scopes) (hplace : place < scopes.size)
    (name : String) (value : Value) (constant : Bool) :
    Reachable (scopes.declare place name value constant)

/-- One scope is around all others. -/
structure Rooted (scopes : Scopes) : Prop where
  nonempty : 0 < scopes.size
  inside {place : Nat} (hplace : place < scopes.size) (hinner : place ≠ globalPlace) :
    ∃ outer, scopes.parent? place = some outer

theorem parent?_child (hplace : place < scopes.size) (parent : Nat) (isFunction : Bool) :
    (scopes.child parent isFunction).2.parent? place = scopes.parent? place := by
  unfold parent? child
  rw [Array.getElem?_push, if_neg (Nat.ne_of_lt hplace)]

theorem parent?_child_size {parent : Nat} (hparent : parent < scopes.size) (isFunction : Bool) :
    (scopes.child parent isFunction).2.parent? scopes.size = some parent := by
  unfold parent? child
  simp [hparent]

theorem parent?_declare (scopes : Scopes) (owner place : Nat) (name : String) (value : Value)
    (constant : Bool) :
    (scopes.declare owner name value constant).parent? place = scopes.parent? place := by
  unfold parent? declare
  rw [Array.getElem?_modify]
  by_cases hplace : owner = place
  · rw [if_pos hplace]
    cases scopes[place]? <;> rfl
  · rw [if_neg hplace]

theorem lt_size_of_parent? {outer : Nat} (h : scopes.parent? place = some outer) :
    outer < scopes.size := by
  have hlt := parent?_lt h
  have hplace : place < scopes.size := by
    by_contra hsize
    rw [parent?, Array.getElem?_eq_none (Nat.not_lt.mp hsize)] at h
    cases h
  omega

theorem Reachable.rooted (h : Reachable scopes) : scopes.Rooted := by
  induction h with
  | initial =>
    refine ⟨Nat.one_pos, fun hplace hinner => ?_⟩
    exact absurd (Nat.lt_one_iff.mp hplace) hinner
  | @child scopes parent _ hparent isFunction ih =>
    refine ⟨by simp [Scopes.child], fun {place} hplace hinner => ?_⟩
    have hsize : place < scopes.size + 1 := by simpa [Scopes.child] using hplace
    rcases Nat.lt_succ_iff_lt_or_eq.mp hsize with hold | rfl
    · rw [parent?_child hold]
      exact ih.inside hold hinner
    · exact ⟨parent, parent?_child_size hparent isFunction⟩
  | declare _ _ name value constant ih =>
    refine ⟨by simpa [size_declare] using ih.nonempty, fun hplace hinner => ?_⟩
    rw [parent?_declare]
    exact ih.inside (by simpa [size_declare] using hplace) hinner

/-! ## What is found -/

theorem find?_of_parent? {outer : Nat} (hown : (scopes.bindings place).lookup name = none)
    (hparent : scopes.parent? place = some outer) :
    scopes.find? place name = scopes.find? outer name := by
  rw [find?, hown]
  simp only
  split
  · rename_i outer' houter
    rw [hparent] at houter
    cases houter
    rfl
  · rename_i hnone
    rw [hparent] at hnone
    cases hnone

theorem find?_of_outermost (hown : (scopes.bindings place).lookup name = none)
    (hparent : scopes.parent? place = none) : scopes.find? place name = none := by
  rw [find?, hown]
  simp only
  split
  · rename_i outer houter
    rw [hparent] at houter
    cases houter
  · rfl

/-- What is true of a search if it ends at a scope with the name, at a scope around which there is
none, or goes on outward. -/
theorem search_induction (scopes : Scopes) (name : String) {motive : Nat → Prop}
    (here : ∀ place binding, (scopes.bindings place).lookup name = some binding → motive place)
    (outermost : ∀ place, (scopes.bindings place).lookup name = none →
      scopes.parent? place = none → motive place)
    (outward : ∀ place outer, (scopes.bindings place).lookup name = none →
      scopes.parent? place = some outer → motive outer → motive place) (place : Nat) :
    motive place := by
  induction place using Nat.strong_induction_on with
  | _ place ih =>
    cases hown : (scopes.bindings place).lookup name with
    | some binding => exact here place binding hown
    | none =>
      cases hparent : scopes.parent? place with
      | none => exact outermost place hown hparent
      | some outer => exact outward place outer hown hparent (ih outer (parent?_lt hparent))

/-- A name is found in a scope that has it. -/
theorem lookup_of_find? (h : scopes.find? place name = some (owner, binding)) :
    (scopes.bindings owner).lookup name = some binding := by
  induction place using search_induction scopes name with
  | here place own hown =>
    rw [find?_of_lookup hown] at h
    cases h
    exact hown
  | outermost place hown hparent =>
    rw [find?_of_outermost hown hparent] at h
    cases h
  | outward place outer hown hparent ih =>
    rw [find?_of_parent? hown hparent] at h
    exact ih h

theorem lt_size_of_lookup (h : (scopes.bindings place).lookup name = some binding) :
    place < scopes.size := by
  by_contra hsize
  have hempty : scopes.bindings place = [] := by
    rw [bindings, Array.getD_eq_getD_getElem?, Array.getElem?_eq_none (Nat.not_lt.mp hsize)]
    rfl
  rw [hempty] at h
  cases h

/-- A name that is not found from one of the scopes is not one of the scope around them. -/
theorem Rooted.lookup_globalPlace_of_find? (h : scopes.Rooted) (hplace : place < scopes.size)
    (hnone : scopes.find? place name = none) :
    (scopes.bindings globalPlace).lookup name = none := by
  induction place using search_induction scopes name with
  | here place own hown =>
    rw [find?_of_lookup hown] at hnone
    cases hnone
  | outermost place hown hparent =>
    by_cases houtermost : place = globalPlace
    · exact houtermost ▸ hown
    · obtain ⟨outer, houter⟩ := h.inside hplace houtermost
      rw [hparent] at houter
      cases houter
  | outward place outer hown hparent ih =>
    rw [find?_of_parent? hown hparent] at hnone
    exact ih (lt_size_of_parent? hparent) hnone

/-! ## Setting a name -/

section

variable (scopes) (value : Value) (constant : Bool)

/-- Setting a name does not change what is found for others. -/
theorem find?_declare_other (owner place : Nat) (hother : other ≠ name) :
    (scopes.declare owner name value constant).find? place other = scopes.find? place other := by
  have hbindings : ∀ place, ((scopes.declare owner name value constant).bindings place).lookup other
      = (scopes.bindings place).lookup other := by
    intro place
    rw [lookup_bindings_declare, if_neg fun h => hother h.2]
  induction place using search_induction scopes other with
  | here place own hown => rw [find?_of_lookup hown, find?_of_lookup ((hbindings place).trans hown)]
  | outermost place hown hparent =>
    rw [find?_of_outermost hown hparent, find?_of_outermost ((hbindings place).trans hown)]
    rwa [parent?_declare]
  | outward place outer hown hparent ih =>
    rw [find?_of_parent? hown hparent, ← ih]
    exact find?_of_parent? ((hbindings place).trans hown) (by rwa [parent?_declare])

/-- Setting a name in a scope that has it changes what is found there, and nothing that is found
elsewhere. -/
theorem find?_declare_of_lookup (howner : (scopes.bindings owner).lookup name = some binding)
    (place : Nat) :
    (scopes.declare owner name value constant).find? place name =
      (scopes.find? place name).map fun found =>
        if found.1 = owner then (owner, ⟨value, constant⟩) else found := by
  have hsize := lt_size_of_lookup howner
  induction place using search_induction scopes name with
  | here place own hown =>
    rw [find?_of_lookup hown]
    by_cases hplace : place = owner
    · rw [find?_of_lookup (by rw [lookup_bindings_declare, if_pos ⟨⟨hplace, hsize⟩, rfl⟩])]
      simp [hplace]
    · rw [find?_of_lookup (by rw [lookup_bindings_declare, if_neg fun h => hplace h.1.1, hown])]
      simp [hplace]
  | outermost place hown hparent =>
    have hplace : place ≠ owner := fun h => by simp [h ▸ hown] at howner
    rw [find?_of_outermost hown hparent, find?_of_outermost _ (by rwa [parent?_declare])]
    · rfl
    · rw [lookup_bindings_declare, if_neg fun h => hplace h.1.1, hown]
  | outward place outer hown hparent ih =>
    have hplace : place ≠ owner := fun h => by simp [h ▸ hown] at howner
    rw [find?_of_parent? hown hparent, ← ih]
    refine find?_of_parent? ?_ (by rwa [parent?_declare])
    rw [lookup_bindings_declare, if_neg fun h => hplace h.1.1, hown]

variable {scopes}

/-- A name that the scope around all others gets is found from every scope from which it was not. -/
theorem Rooted.find?_declare_globalPlace (h : scopes.Rooted)
    (hglobal : (scopes.bindings globalPlace).lookup name = none) (hplace : place < scopes.size) :
    (scopes.declare globalPlace name value constant).find? place name =
      some ((scopes.find? place name).getD (globalPlace, ⟨value, constant⟩)) := by
  have hset : (scopes.declare globalPlace name value constant).find? globalPlace name =
      some (globalPlace, ⟨value, constant⟩) :=
    find?_of_lookup (by rw [lookup_bindings_declare, if_pos ⟨⟨rfl, h.nonempty⟩, rfl⟩])
  induction place using search_induction scopes name with
  | here place own hown =>
    have hinner : place ≠ globalPlace := fun h => by simp [h ▸ hown] at hglobal
    rw [find?_of_lookup hown]
    exact find?_of_lookup (by rw [lookup_bindings_declare, if_neg fun h => hinner h.1.1, hown])
  | outermost place hown hparent =>
    by_cases houtermost : place = globalPlace
    · rw [houtermost, hset, find?_of_outermost hglobal (houtermost ▸ hparent)]
      rfl
    · obtain ⟨outer, houter⟩ := h.inside hplace houtermost
      rw [hparent] at houter
      cases houter
  | outward place outer hown hparent ih =>
    have hinner : place ≠ globalPlace := by
      have := parent?_lt hparent
      simp only [globalPlace]
      omega
    rw [find?_of_parent? hown hparent, ← ih (lt_size_of_parent? hparent)]
    refine find?_of_parent? ?_ (by rwa [parent?_declare])
    rw [lookup_bindings_declare, if_neg fun h => hinner h.1.1, hown]

end

/-! ## Assigning a name -/

/-- The scope in which an assignment of a name from a place sets it. -/
def target (scopes : Scopes) (place : Nat) (name : String) : Nat :=
  ((scopes.find? place name).map (·.1)).getD globalPlace

/-- Two searches for a name that end in the same scope, or both in none. -/
def SameSearch (scopes : Scopes) (first second : Nat) (name : String) : Prop :=
  (scopes.find? first name).map (·.1) = (scopes.find? second name).map (·.1)

instance (scopes : Scopes) (first second : Nat) (name : String) :
    Decidable (scopes.SameSearch first second name) :=
  inferInstanceAs (Decidable (_ = _))

/-- What it means for a forest that a name is given a value from a place. -/
structure Assigned (scopes : Scopes) (place : Nat) (name : String) (value : Value)
    (scopes' : Scopes) : Prop where
  /-- The name has the value, -/
  seen : scopes'.lookup place name = some value
  /-- in the scope in which it was found or else in the one around all others, -/
  bound : (scopes'.bindings (scopes.target place name)).lookup name = some ⟨value, false⟩
  /-- and no other name of any scope is changed. -/
  kept (inside : Nat) (other : String)
    (h : ¬(inside = scopes.target place name ∧ other = name)) :
    (scopes'.bindings inside).lookup other = (scopes.bindings inside).lookup other
  /-- From a scope the name is found in the place it has been set if it was found where the
  assignment has found it, or nowhere like there, and all else is found as before. -/
  found {inside : Nat} (h : inside < scopes.size) (other : String) :
    scopes'.find? inside other =
      if other = name ∧ scopes.SameSearch inside place name then
        some (scopes.target place name, ⟨value, false⟩)
      else scopes.find? inside other
  /-- The scopes stand where they stood. -/
  size : scopes'.size = scopes.size
  parents (inside : Nat) : scopes'.parent? inside = scopes.parent? inside
  functions (inside : Nat) :
    (scopes'.getD inside default).isFunction = (scopes.getD inside default).isFunction

theorem isFunction_declare (scopes : Scopes) (owner place : Nat) (name : String) (value : Value)
    (constant : Bool) :
    ((scopes.declare owner name value constant).getD place default).isFunction =
      (scopes.getD place default).isFunction := by
  unfold declare
  simp only [Array.getD_eq_getD_getElem?, Array.getElem?_modify]
  by_cases hplace : owner = place
  · rw [if_pos hplace]
    cases scopes[place]? <;> rfl
  · rw [if_neg hplace]

/-- Setting a name in its target is an assignment if all searches find the right thing. -/
theorem assigned_declare (hsize : scopes.target place name < scopes.size) (value : Value)
    (hfound : ∀ inside < scopes.size,
      (scopes.declare (scopes.target place name) name value false).find? inside name =
        if scopes.SameSearch inside place name then
          some (scopes.target place name, ⟨value, false⟩)
        else scopes.find? inside name)
    (hplace : place < scopes.size) :
    scopes.Assigned place name value
      (scopes.declare (scopes.target place name) name value false) where
  seen := by
    have hsame : scopes.SameSearch place place name := rfl
    rw [lookup, hfound place hplace, if_pos hsame]
    rfl
  bound := by rw [lookup_bindings_declare, if_pos ⟨⟨rfl, hsize⟩, rfl⟩]
  kept inside other h := by
    rw [lookup_bindings_declare, if_neg fun hset => h ⟨hset.1.1, hset.2⟩]
  found {inside} hinside other := by
    by_cases hother : other = name
    · subst hother
      rw [hfound inside hinside]
      simp
    · rw [find?_declare_other _ _ _ _ _ hother, if_neg fun h => hother h.1]
  size := size_declare _ _ _ _
  parents := fun inside => parent?_declare _ _ _ _ _ _
  functions := fun inside => isFunction_declare _ _ _ _ _ _

/-- A name that is found in a scope is set there. -/
theorem assigned_of_find? (hplace : place < scopes.size)
    (hfound : scopes.find? place name = some (owner, binding)) (value : Value) :
    scopes.Assigned place name value (scopes.declare owner name value false) := by
  have hlookup := lookup_of_find? hfound
  have htarget : scopes.target place name = owner := by simp [target, hfound]
  have hassigned := assigned_declare (htarget ▸ lt_size_of_lookup hlookup) value ?_ hplace
  · rwa [htarget] at hassigned
  · intro inside _
    rw [htarget, find?_declare_of_lookup _ _ _ hlookup]
    simp only [SameSearch, hfound]
    cases scopes.find? inside name with
    | none => simp
    | some found =>
      by_cases hsame : found.1 = owner
      · simp [hsame]
      · simp [hsame]

/-- A name that is not found is set in the scope around all others. -/
theorem Rooted.assigned_of_find?_none (h : scopes.Rooted) (hplace : place < scopes.size)
    (hnone : scopes.find? place name = none) (value : Value) :
    scopes.Assigned place name value (scopes.declare globalPlace name value false) := by
  have hglobal := h.lookup_globalPlace_of_find? hplace hnone
  have htarget : scopes.target place name = globalPlace := by simp [target, hnone]
  have hassigned := assigned_declare (by rw [htarget]; exact h.nonempty) value ?_ hplace
  · rwa [htarget] at hassigned
  · intro inside hinside
    rw [htarget, h.find?_declare_globalPlace _ _ hglobal hinside]
    simp only [SameSearch, hnone]
    cases scopes.find? inside name with
    | none => simp
    | some found => simp

end Scopes

/-! ## On a machine -/

variable {m : Machine} {scope : Nat} {name : String} {value : Value} {place : Nat}

theorem assignVariable_apply :
    assignVariable scope name value place m =
      match m.scopes.assignable scope name with
      | .ok owner => .ok () { m with scopes := m.scopes.declare owner name value false }
      | .error .undeclared =>
        .ok () { m with scopes := m.scopes.declare Scopes.globalPlace name value false }
      | .error .constant => raise .typeError "Assignment to constant variable." place m := by
  show (match m.scopes.assignable scope name with
    | .ok owner => declare owner name value false
    | .error .undeclared => declare Scopes.globalPlace name value false
    | .error .constant => raise .typeError "Assignment to constant variable." place) m = _
  cases m.scopes.assignable scope name with
  | ok owner => rfl
  | error reason => cases reason <;> rfl

theorem assignVariable_of_find? {owner : Nat} {binding : Binding}
    (hfound : m.scopes.find? scope name = some (owner, binding)) :
    assignVariable scope name value place m =
      if binding.constant then raise .typeError "Assignment to constant variable." place m
      else .ok () { m with scopes := m.scopes.declare owner name value false } := by
  have hassignable : m.scopes.assignable scope name =
      if binding.constant then .error .constant else .ok owner := by
    rw [Scopes.assignable, hfound]
  rw [assignVariable_apply, hassignable]
  cases binding.constant <;> rfl

theorem assignVariable_of_find?_none (hnone : m.scopes.find? scope name = none) :
    assignVariable scope name value place m =
      .ok () { m with scopes := m.scopes.declare Scopes.globalPlace name value false } := by
  rw [assignVariable_apply, Scopes.assignable, hnone]

/-- What an assignment of a name from a scope does to a machine. -/
structure Machine.Assigns (m : Machine) (scope : Nat) (name : String) (value : Value)
    (place : Nat) : Prop where
  /-- If the name is not found, or is found with a value that is not fixed, it is given the value,
  and nothing but the scopes is changed. -/
  done (h : ∀ owner binding, m.scopes.find? scope name = some (owner, binding) →
      binding.constant = false) :
    ∃ scopes, assignVariable scope name value place m = .ok () { m with scopes } ∧
      m.scopes.Assigned scope name value scopes
  /-- If it is found with a fixed value an error is thrown, which is made on the heap, and no scope
  is changed. -/
  refused {owner : Nat} {binding : Binding}
    (h : m.scopes.find? scope name = some (owner, binding)) (hconstant : binding.constant = true) :
    ∃ error heap, newError .typeError "Assignment to constant variable." m =
        .ok error { m with heap } ∧
      assignVariable scope name value place m = .error (.throw error place) { m with heap }
  /-- The scopes stay ones that a run leads to. -/
  reachable : (Ending.machine (assignVariable scope name value place m)).scopes.Reachable

/-- **An assignment changes the binding that is seen, and nothing else.** -/
theorem assigns_what_is_seen (hreachable : m.scopes.Reachable) (hscope : scope < m.scopes.size)
    (name : String) (value : Value) (place : Nat) : m.Assigns scope name value place where
  done h := by
    cases hfound : m.scopes.find? scope name with
    | none =>
      exact ⟨_, assignVariable_of_find?_none hfound,
        hreachable.rooted.assigned_of_find?_none hscope hfound value⟩
    | some found =>
      refine ⟨_, ?_, Scopes.assigned_of_find? hscope hfound value⟩
      rw [assignVariable_of_find? hfound, h found.1 found.2 hfound]
      rfl
  refused h hconstant := by
    refine ⟨_, _, rfl, ?_⟩
    rw [assignVariable_of_find? h, if_pos hconstant]
    rfl
  reachable := by
    cases hfound : m.scopes.find? scope name with
    | none =>
      rw [assignVariable_of_find?_none hfound]
      exact hreachable.declare hreachable.rooted.nonempty _ _ _
    | some found =>
      have howner := Scopes.lt_size_of_lookup (Scopes.lookup_of_find? hfound)
      rw [assignVariable_of_find? hfound]
      split
      · exact hreachable
      · exact hreachable.declare howner _ _ _

/-- A function that counts in a variable of the script around it, which has a fixed name too. -/
def counterScopes : Scopes :=
  let outer := Scopes.initial.declare Scopes.globalPlace "count" (.boolean false) false
  ((outer.child Scopes.globalPlace true).2.declare 1 "limit" .undefined true)

/-- From inside the function the variable is set, where it is seen from outside as well, and the
fixed name is not. -/
theorem counter_is_assigned :
    (∃ scopes, assignVariable 1 "count" (.boolean true) 7
        { Machine.start ⟨none⟩ with scopes := counterScopes } =
          .ok () { Machine.start ⟨none⟩ with scopes } ∧
        scopes.lookup Scopes.globalPlace "count" = some (.boolean true)) ∧
      ∃ error heap, assignVariable 1 "limit" (.boolean true) 7
        { Machine.start ⟨none⟩ with scopes := counterScopes } =
          .error (.throw error 7) { Machine.start ⟨none⟩ with scopes := counterScopes, heap } := by
  have hreachable : counterScopes.Reachable :=
    ((Scopes.Reachable.initial.declare (by decide) _ _ _).child (by decide) _).declare
      (by decide) _ _ _
  have hassigns (name : String) := assigns_what_is_seen
    (m := { Machine.start ⟨none⟩ with scopes := counterScopes })
    hreachable (show 1 < counterScopes.size by decide) name (.boolean true) 7
  have hcount : counterScopes.find? 1 "count" = some (0, ⟨.boolean false, false⟩) :=
    (Scopes.find?_of_parent? rfl rfl).trans (Scopes.find?_of_lookup rfl)
  constructor
  · obtain ⟨scopes, hdone, hassigned⟩ := (hassigns "count").done fun owner binding h => by
      cases hcount.symm.trans h
      rfl
    refine ⟨scopes, hdone, ?_⟩
    have hsame : counterScopes.SameSearch Scopes.globalPlace 1 "count" := by
      rw [Scopes.SameSearch, hcount, Scopes.find?_of_lookup rfl]
      rfl
    rw [Scopes.lookup, hassigned.found (by decide), if_pos ⟨rfl, hsame⟩]
    rfl
  · obtain ⟨error, heap, -, hrefused⟩ :=
      (hassigns "limit").refused (Scopes.find?_of_lookup rfl) rfl
    exact ⟨error, heap, hrefused⟩

end Stencil.Script
