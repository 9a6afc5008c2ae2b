import Stencil.Proofs.Script.Lockstep
import Stencil.Proofs.Script.Writing

/-! # Chains of optional links

A chain is evaluated from its operand on, link by link, after the clock has been looked at once for
each call in it.  An optional link that finds nothing gives `undefined` to the link behind it, and
to no other: the chain goes on with that link.  So it ends with `undefined` where all links behind
the first one are optional too, and otherwise in the error that the next link makes of `undefined`.
-/
namespace Stencil.Script

/-! ## Links -/

/-- What stands behind an operand: a member, a computed member or a call. -/
inductive Link
  | member (span : Span) (name : String) (nameSpan : Span) (optional : Bool)
  | index (span : Span) (key : Expr) (optional : Bool)
  | call (span : Span) (arguments : List Element) (optional : Bool)

namespace Link

/-- Whether a link stands behind `?.`. -/
def isOptional : Link → Bool
  | member _ _ _ optional | index _ _ optional | call _ _ optional => optional

/-- Whether a link is a call. -/
def isCall : Link → Bool
  | call _ _ _ => true
  | _ => false

/-- An operand with a link behind it. -/
def attach (e : Expr) : Link → Expr
  | member span name nameSpan optional => .member span e name nameSpan optional
  | index span key optional => .index span e key optional
  | call span arguments optional => .call span e arguments optional

end Link

/-- An operand with links behind it, the nearest first. -/
def Expr.linked (e : Expr) (links : List Link) : Expr := links.foldl Link.attach e

/-- Looks at the clock a number of times. -/
def ticks : Nat → Exec Unit
  | 0 => return
  | n + 1 => do
    ticks n
    tick

namespace Runner

variable (r : Runner)

/-- What a link makes of the value before it, which is that of an expression at the place
`operand`. -/
def follow (link : Link) (operand : Span) (scope : Nat) (v : Value) : Exec Value := do
  if link.isOptional && v.isNullish then return .undefined
  match link with
  | .member _ name nameSpan _ => getMember v name nameSpan.start
  | .index _ key _ => getMember v (← r.textOf key scope) key.span.start
  | .call span list _ =>
    let values ← r.elements scope list
    if v.isCallable then r.call v values span.start
    else raise .typeError (r.spanText operand ++ " is not a function") operand.start

/-- What a link that is not optional makes of `undefined`: an error, behind the key or the arguments
that it evaluates. -/
def miss (link : Link) (operand : Span) (scope : Nat) : Exec Value := do
  let unreadable (name : String) := "Cannot read properties of undefined (reading '" ++ name ++ "')"
  match link with
  | .member _ name nameSpan _ => raise .typeError (unreadable name) nameSpan.start
  | .index _ key _ => raise .typeError (unreadable (← r.textOf key scope)) key.span.start
  | .call _ list _ =>
    let _ ← r.elements scope list
    raise .typeError (r.spanText operand ++ " is not a function") operand.start

/-- What the links behind an operand make of its value, one behind the other. -/
def followAll (source : List Char) (bound scope : Nat) : Nat → Expr → List Link → Value → Exec Value
  | _, _, [], v => return v
  | depth, e, link :: rest, v => do
    let w ← (deep source bound depth).follow link e.span scope v
    followAll source bound scope (depth + 1) (link.attach e) rest w

variable {source : List Char} {bound depth scope : Nat} {e : Expr} {link : Link} {m : Machine}

theorem expression_attach :
    (deep source bound (depth + 1)).expression (link.attach e) scope = (do
      ticks (if link.isCall then 1 else 0)
      let v ← (deep source bound depth).expression e scope
      (deep source bound depth).follow link e.span scope v) := by
  cases link with
  | member span name nameSpan optional => rfl
  | index span key optional => rfl
  | call span list optional => rfl

/-- **A chain is evaluated from its operand on**, after all looks at the clock. -/
theorem expression_linked (links : List Link) :
    (deep source bound (depth + links.length)).expression (e.linked links) scope = (do
      ticks (links.countP Link.isCall)
      let v ← (deep source bound depth).expression e scope
      followAll source bound scope depth e links v) := by
  induction links generalizing e depth with
  | nil => simp [Expr.linked, followAll, ticks]
  | cons link rest ih =>
    have hticks : ticks ((link :: rest).countP Link.isCall) = (do
        ticks (rest.countP Link.isCall)
        ticks (if link.isCall then 1 else 0)) := by
      cases hcall : link.isCall with
      | true => simp [hcall, ticks]
      | false => simp [hcall, ticks]
    rw [List.length_cons, ← Nat.add_assoc, Nat.add_right_comm]
    show (deep source bound (depth + 1 + rest.length)).expression
      ((link.attach e).linked rest) scope = _
    rw [ih, hticks, expression_attach]
    simp [followAll]

/-! ## Nothing before a link -/

theorem follow_optional (r : Runner) (operand : Span) {v : Value} (hlink : link.isOptional = true)
    (hv : v.isNullish = true) : r.follow link operand scope v = pure .undefined := by
  simp [follow, hlink, hv]

theorem getMember_undefined (key : String) (place : Nat) : getMember .undefined key place =
    raise .typeError ("Cannot read properties of undefined (reading '" ++ key ++ "')") place := by
  have hmessage : "Cannot read properties of " ++ "undefined" ++ " (reading '" =
      "Cannot read properties of undefined (reading '" := by decide
  rw [← hmessage]
  rfl

theorem follow_undefined (r : Runner) (operand : Span) (hlink : link.isOptional = false) :
    r.follow link operand scope .undefined = r.miss link operand scope := by
  cases link with
  | member span name nameSpan optional => simp [follow, miss, hlink, getMember_undefined]
  | index span key optional => simp [follow, miss, hlink, getMember_undefined]
  | call span list optional => simp [follow, miss, hlink, Value.isCallable]

theorem raise_ne_ok {α : Type} (kind : ErrorKind) (message : String) (place : Nat) (m m' : Machine)
    (a : α) : raise kind message place m ≠ .ok a m' := by
  intro h
  cases h

theorem miss_ne_ok (r : Runner) (operand : Span) (m m' : Machine) (v : Value) :
    r.miss link operand scope m ≠ .ok v m' := by
  cases link with
  | member span name nameSpan optional => exact raise_ne_ok _ _ _ _ _ _
  | index span key optional =>
    intro h
    obtain ⟨name, now, -, h⟩ := exec_bind_eq_ok h
    exact raise_ne_ok _ _ _ _ _ _ h
  | call span list optional =>
    intro h
    obtain ⟨values, now, -, h⟩ := exec_bind_eq_ok h
    exact raise_ne_ok _ _ _ _ _ _ h

/-- Optional links hand on `undefined`. -/
theorem followAll_optional {links : List Link} (hlinks : ∀ l ∈ links, l.isOptional = true)
    (behind : List Link) :
    followAll source bound scope depth e (links ++ behind) .undefined =
      followAll source bound scope (depth + links.length) (e.linked links) behind .undefined := by
  induction links generalizing e depth with
  | nil => rfl
  | cons l rest ih =>
    obtain ⟨hl, hrest⟩ := List.forall_mem_cons.mp hlinks
    rw [List.cons_append, followAll, follow_optional _ _ hl rfl, pure_bind, ih hrest,
      List.length_cons, Nat.add_right_comm, Nat.add_assoc]
    rfl

theorem linked_ne_privateMember (first : Link) (rest : List Link) (place : Span) :
    e.linked (first :: rest) ≠ .privateMember place := by
  induction rest generalizing e first with
  | nil => cases first <;> simp [Expr.linked, Link.attach]
  | cons l rest ih => exact ih (e := first.attach e) l

theorem expression_chain {inner : Expr} (span : Span)
    (hinner : ∀ place, inner ≠ .privateMember place) :
    (deep source bound (depth + 1)).expression (.chain span inner) scope =
      (deep source bound depth).expression inner scope := by
  cases inner with
  | privateMember place => exact absurd rfl (hinner place)
  | _ => rfl

/-- The links behind an optional one go on with `undefined` if its operand is nothing. -/
theorem chain_eq_followAll {first : Link} {v : Value} {m m' : Machine} (rest : List Link)
    (span : Span) (hfirst : first.isOptional = true)
    (hvalue : (do
      ticks ((first :: rest).countP Link.isCall)
      (deep source bound depth).expression e scope) m = .ok v m')
    (hv : v.isNullish = true) :
    (deep source bound (depth + rest.length + 2)).expression
      (.chain span (e.linked (first :: rest))) scope m =
        followAll source bound scope (depth + 1) (first.attach e) rest .undefined m' := by
  have hchain := @expression_chain source bound (depth + (first :: rest).length) scope _ span
    (linked_ne_privateMember (e := e) first rest)
  have hfollow : followAll source bound scope depth e (first :: rest) v =
      followAll source bound scope (depth + 1) (first.attach e) rest .undefined := by
    rw [followAll, follow_optional _ _ hfirst hv, pure_bind]
  rw [expression_linked, ← bind_assoc] at hchain
  rw [← hfollow]
  show (deep source bound (depth + (first :: rest).length + 1)).expression _ scope m = _
  rw [hchain, bind_apply, hvalue]
  rfl

/-- **What becomes of a chain whose operand is nothing.** The operand of a chain, whose first link
is optional, is evaluated to a value that is nothing. If all links behind the first one are optional
too, then the chain ends with `undefined`, and neither a key nor an argument has been evaluated. If
not, then it ends in the error that the first link which is not optional makes of `undefined`. -/
theorem chain_of_nothing {first : Link} {rest : List Link} {v : Value} {m m' : Machine}
    (span : Span) (hfirst : first.isOptional = true)
    (hvalue : (do
      ticks ((first :: rest).countP Link.isCall)
      (deep source bound depth).expression e scope) m = .ok v m')
    (hv : v.isNullish = true) :
    ((∀ l ∈ rest, l.isOptional = true) →
      (deep source bound (depth + rest.length + 2)).expression
        (.chain span (e.linked (first :: rest))) scope m = .ok .undefined m') ∧
    ∀ skipped link behind, rest = skipped ++ link :: behind →
      (∀ l ∈ skipped, l.isOptional = true) → link.isOptional = false →
        (deep source bound (depth + rest.length + 2)).expression
          (.chain span (e.linked (first :: rest))) scope m =
            (deep source bound (depth + 1 + skipped.length)).miss link
              (e.linked (first :: skipped)).span scope m' ∧
        ∀ w n, (deep source bound (depth + rest.length + 2)).expression
          (.chain span (e.linked (first :: rest))) scope m ≠ .ok w n := by
  rw [chain_eq_followAll rest span hfirst hvalue hv]
  constructor
  · intro hrest
    rw [← List.append_nil rest, followAll_optional hrest]
    rfl
  · rintro skipped link behind rfl hskipped hlink
    have hmiss : followAll source bound scope (depth + 1) (first.attach e)
        (skipped ++ link :: behind) .undefined m' =
          (deep source bound (depth + 1 + skipped.length)).miss link
            (e.linked (first :: skipped)).span scope m' := by
      rw [followAll_optional hskipped, followAll, follow_undefined _ _ hlink, bind_apply]
      cases hresult : (deep source bound (depth + 1 + skipped.length)).miss link
          ((first.attach e).linked skipped).span scope m' with
      | ok w n => exact absurd hresult (miss_ne_ok _ _ _ _ _)
      | error why n => exact hresult.symm
    exact ⟨hmiss, fun w n h => miss_ne_ok _ _ _ _ _ (hmiss ▸ h)⟩

end Runner

/-- A chain of a member, a computed member and a call, all of them optional, whose operand is
null. -/
theorem chain_of_nothing_optional :
    (Runner.deep [] 0 5).expression (.chain ⟨0, 0⟩ (Expr.linked (.null ⟨0, 0⟩)
      [.member ⟨0, 0⟩ "b" ⟨0, 0⟩ true, .index ⟨0, 0⟩ (.name ⟨0, 0⟩ "k") true,
        .call ⟨0, 0⟩ [.item (.name ⟨0, 0⟩ "x")] true])) Scopes.globalPlace (.start ⟨none⟩) =
      .ok .undefined (.start ⟨none⟩) := by
  have hvalue : (do
      ticks (List.countP Link.isCall [.member ⟨0, 0⟩ "b" ⟨0, 0⟩ true,
        .index ⟨0, 0⟩ (.name ⟨0, 0⟩ "k") true, .call ⟨0, 0⟩ [.item (.name ⟨0, 0⟩ "x")] true])
      (Runner.deep [] 0 1).expression (.null ⟨0, 0⟩) Scopes.globalPlace) (.start ⟨none⟩) =
        .ok .null (.start ⟨none⟩) := rfl
  exact (Runner.chain_of_nothing ⟨0, 0⟩ rfl hvalue rfl).1 (by simp [Link.isOptional])

/-- The last link of this chain is not optional: it is followed although the operand of the chain is
null. -/
theorem chain_goes_on :
    runScript "let a = null; write(a?.b.c);" ⟨"/views/test.exp", .object []⟩ ⟨none⟩ =
      .error ⟨"TypeError", "Cannot read properties of undefined (reading 'c')", some ⟨1, 26⟩⟩ := by
  decide +kernel

end Stencil.Script
