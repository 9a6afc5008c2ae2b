import Stencil.Script.Run

/-! # What is asked of scripts

What it means that all parts of a script meet a demand: that its expressions, and all else in it
that has a place of its own, stand where they may, and that nothing in the parameters of a function
is a call.  A machine keeps functions for later calls, so the same is asked of these.
-/
namespace Stencil.Script

/-- What is asked of the parts of a script. -/
structure Demand where
  /-- The spans that parts may have. -/
  span : Span → Prop
  /-- Whether parameters are bound without calls. -/
  silent : Bool

/-- The places where a part may begin. -/
def Demand.place (D : Demand) (place : Nat) : Prop := ∃ span, D.span span ∧ span.start = place

variable (D : Demand)

mutual

/-- An expression meets a demand, and if it has to be silent there is no call in it, apart from
those in the bodies of functions. -/
def Expr.Meets (silent : Bool) : Expr → Prop
  | .template s _ values => D.span s ∧ MeetExprs silent values
  | .sequence s items => D.span s ∧ MeetExprs silent items
  | .array s elements => D.span s ∧ MeetElements silent elements
  | .object s members => D.span s ∧ MeetMembers silent members
  | .function s _ parameters body =>
    D.span s ∧ MeetPatterns D.silent parameters ∧ MeetStmts false body
  | .paren s inner | .unary s _ inner | .chain s inner | .await s inner =>
    D.span s ∧ inner.Meets silent
  | .member s owner _ nameSpan _ => D.span s ∧ D.span nameSpan ∧ owner.Meets silent
  | .binary s _ left right | .logical s _ left right =>
    D.span s ∧ left.Meets silent ∧ right.Meets silent
  | .conditional s test yes no =>
    D.span s ∧ test.Meets silent ∧ yes.Meets silent ∧ no.Meets silent
  | .assign s _ target value => D.span s ∧ target.Meets silent ∧ value.Meets silent
  | .update s _ _ target => D.span s ∧ target.Meets silent
  | .index s owner key _ => D.span s ∧ owner.Meets silent ∧ key.Meets silent
  | .call s callee arguments _ | .new s callee arguments =>
    D.span s ∧ silent = false ∧ callee.Meets silent ∧ MeetElements silent arguments
  | .boolean s _ | .null s | .number s _ | .string s _ | .name s _ | .this s | .privateMember s
  | .unsupported s => D.span s

def MeetExprs (silent : Bool) : List Expr → Prop
  | [] => True
  | e :: rest => e.Meets silent ∧ MeetExprs silent rest

def MeetElements (silent : Bool) : List Element → Prop
  | [] => True
  | .item e :: rest => e.Meets silent ∧ MeetElements silent rest
  | .spread s e :: rest => D.span s ∧ e.Meets silent ∧ MeetElements silent rest
  | .hole :: rest => MeetElements silent rest

def MeetMembers (silent : Bool) : List Member → Prop
  | [] => True
  | .field key value :: rest => key.Meets silent ∧ value.Meets silent ∧ MeetMembers silent rest
  | .spread _ e :: rest => e.Meets silent ∧ MeetMembers silent rest

/-- A target meets a demand. -/
def Target.Meets (silent : Bool) : Target → Prop
  | .name s _ | .unsupported s => D.span s
  | .member owner _ nameSpan => D.span nameSpan ∧ owner.Meets silent
  | .index s owner key => D.span s ∧ owner.Meets silent ∧ key.Meets silent
  | .variable _ pattern => pattern.Meets silent

/-- A pattern meets a demand. -/
def Pattern.Meets (silent : Bool) : Pattern → Prop
  | .hole => True
  | .name s _ => D.span s
  | .object s fields rest => D.span s ∧ MeetFields silent fields ∧ rest.Meets silent
  | .array s elements rest => D.span s ∧ MeetPatterns silent elements ∧ rest.Meets silent
  | .fallback _ pattern value => pattern.Meets silent ∧ value.Meets silent

def MeetPatterns (silent : Bool) : List Pattern → Prop
  | [] => True
  | p :: rest => p.Meets silent ∧ MeetPatterns silent rest

def MeetFields (silent : Bool) : List PatternField → Prop
  | [] => True
  | .mk key p :: rest => key.Meets silent ∧ p.Meets silent ∧ MeetFields silent rest

def MeetDeclarators (silent : Bool) : List Declarator → Prop
  | [] => True
  | .mk p (some e) :: rest => p.Meets silent ∧ e.Meets silent ∧ MeetDeclarators silent rest
  | .mk p none :: rest => p.Meets silent ∧ MeetDeclarators silent rest

def MeetCases (silent : Bool) : List Case → Prop
  | [] => True
  | .mk (some e) list :: rest => e.Meets silent ∧ MeetStmts silent list ∧ MeetCases silent rest
  | .mk none list :: rest => MeetStmts silent list ∧ MeetCases silent rest

def MeetOption (silent : Bool) : Option Expr → Prop
  | some e => e.Meets silent
  | none => True

/-- A statement meets a demand. -/
def Stmt.Meets (silent : Bool) : Stmt → Prop
  | .empty | .break | .continue => True
  | .unsupported s => D.span s
  | .expression e | .throw e => e.Meets silent
  | .variables _ declarators => MeetDeclarators silent declarators
  | .function _ parameters body => MeetPatterns D.silent parameters ∧ MeetStmts false body
  | .block list => MeetStmts silent list
  | .branch test yes no => test.Meets silent ∧ yes.Meets silent ∧ no.Meets silent
  | .forLoop start test update body =>
    start.Meets silent ∧ MeetOption silent test ∧ MeetOption silent update ∧ body.Meets silent
  | .forEach _ target collection body =>
    target.Meets silent ∧ collection.Meets silent ∧ body.Meets silent
  | .whileLoop test body | .doLoop body test => test.Meets silent ∧ body.Meets silent
  | .return value => MeetOption silent value
  | .tryCatch list parameter handler =>
    MeetStmts silent list ∧ parameter.Meets silent ∧ MeetStmts silent handler
  | .tryFinally body finalizer => body.Meets silent ∧ MeetStmts silent finalizer
  | .select e cases => e.Meets silent ∧ MeetCases silent cases

def MeetStmts (silent : Bool) : List Stmt → Prop
  | [] => True
  | s :: rest => s.Meets silent ∧ MeetStmts silent rest

end

/-- A function meets a demand. -/
structure Closure.Meets (closure : Closure) : Prop where
  parameters : MeetPatterns D D.silent closure.parameters
  body : MeetStmts D false closure.body

/-- The functions that a machine keeps meet a demand. -/
def Machine.Meets (m : Machine) : Prop := ∀ f, (m.closures.getD f default).Meets D

/-- A task meets a demand: from a place that is allowed, and only if there may be calls, something
is called. -/
def Task.Meets (silent : Bool) : Task → Prop
  | .expression e _ => e.Meets D silent
  | .statement s _ => s.Meets D silent
  | .bind p _ _ _ => p.Meets D silent
  | .call _ _ place => silent = false ∧ D.place place

variable {D} {silent : Bool}

theorem Demand.place_start {span : Span} (h : D.span span) : D.place span.start := ⟨span, h, rfl⟩

theorem Expr.Meets.span {e : Expr} (h : e.Meets D silent) : D.span e.span := by
  cases e <;> first | exact h | exact h.1

theorem Expr.Meets.place {e : Expr} (h : e.Meets D silent) : D.place e.span.start :=
  Demand.place_start h.span

/-- Statements that meet a demand do so each. -/
theorem MeetStmts.of_mem {list : List Stmt} (hlist : MeetStmts D silent list) {s : Stmt}
    (hs : s ∈ list) : s.Meets D silent := by
  induction list with
  | nil => cases hs
  | cons first rest ih =>
    rcases List.mem_cons.1 hs with rfl | hs
    · exact hlist.1
    · exact ih hlist.2 hs

theorem MeetCases.dropWhile {list : List Case} (hlist : MeetCases D silent list)
    (p : Case → Bool) : MeetCases D silent (list.dropWhile p) := by
  induction list with
  | nil => exact hlist
  | cons c rest ih =>
    rw [List.dropWhile_cons]
    split
    · obtain ⟨_ | e, body⟩ := c
      · exact ih hlist.2
      · exact ih hlist.2.2
    · exact hlist

theorem Machine.meets_start (clock : Clock) : (Machine.start clock).Meets D :=
  fun _ => ⟨trivial, trivial⟩

/-! ## The demand that asks for nothing -/

/-- The demand that all scripts meet. -/
def Demand.free : Demand := ⟨fun _ => True, false⟩

theorem Demand.free_place (place : Nat) : Demand.free.place place := ⟨⟨place, place⟩, trivial, rfl⟩

mutual

theorem Expr.meets_free : ∀ e : Expr, e.Meets .free false
  | .template _ _ values => ⟨trivial, meetExprs_free values⟩
  | .sequence _ items => ⟨trivial, meetExprs_free items⟩
  | .array _ elements => ⟨trivial, meetElements_free elements⟩
  | .object _ members => ⟨trivial, meetMembers_free members⟩
  | .function _ _ parameters body =>
    ⟨trivial, meetPatterns_free parameters, meetStmts_free body⟩
  | .paren _ inner | .unary _ _ inner | .chain _ inner | .await _ inner =>
    ⟨trivial, inner.meets_free⟩
  | .member _ owner _ _ _ => ⟨trivial, trivial, owner.meets_free⟩
  | .binary _ _ left right | .logical _ _ left right =>
    ⟨trivial, left.meets_free, right.meets_free⟩
  | .conditional _ test yes no => ⟨trivial, test.meets_free, yes.meets_free, no.meets_free⟩
  | .assign _ _ target value => ⟨trivial, target.meets_free, value.meets_free⟩
  | .update _ _ _ target => ⟨trivial, target.meets_free⟩
  | .index _ owner key _ => ⟨trivial, owner.meets_free, key.meets_free⟩
  | .call _ callee arguments _ | .new _ callee arguments =>
    ⟨trivial, rfl, callee.meets_free, meetElements_free arguments⟩
  | .boolean _ _ | .null _ | .number _ _ | .string _ _ | .name _ _ | .this _ | .privateMember _
  | .unsupported _ => trivial

theorem meetExprs_free : ∀ list : List Expr, MeetExprs .free false list
  | [] => trivial
  | e :: rest => ⟨e.meets_free, meetExprs_free rest⟩

theorem meetElements_free : ∀ list : List Element, MeetElements .free false list
  | [] => trivial
  | .item e :: rest => ⟨e.meets_free, meetElements_free rest⟩
  | .spread _ e :: rest => ⟨trivial, e.meets_free, meetElements_free rest⟩
  | .hole :: rest => meetElements_free rest

theorem meetMembers_free : ∀ list : List Member, MeetMembers .free false list
  | [] => trivial
  | .field key value :: rest => ⟨key.meets_free, value.meets_free, meetMembers_free rest⟩
  | .spread _ e :: rest => ⟨e.meets_free, meetMembers_free rest⟩

theorem Target.meets_free : ∀ target : Target, target.Meets .free false
  | .name _ _ | .unsupported _ => trivial
  | .member owner _ _ => ⟨trivial, owner.meets_free⟩
  | .index _ owner key => ⟨trivial, owner.meets_free, key.meets_free⟩
  | .variable _ pattern => pattern.meets_free

theorem Pattern.meets_free : ∀ p : Pattern, p.Meets .free false
  | .hole => trivial
  | .name _ _ => trivial
  | .object _ fields rest => ⟨trivial, meetFields_free fields, rest.meets_free⟩
  | .array _ elements rest => ⟨trivial, meetPatterns_free elements, rest.meets_free⟩
  | .fallback _ pattern value => ⟨pattern.meets_free, value.meets_free⟩

theorem meetPatterns_free : ∀ list : List Pattern, MeetPatterns .free false list
  | [] => trivial
  | p :: rest => ⟨p.meets_free, meetPatterns_free rest⟩

theorem meetFields_free : ∀ list : List PatternField, MeetFields .free false list
  | [] => trivial
  | .mk key p :: rest => ⟨key.meets_free, p.meets_free, meetFields_free rest⟩

theorem meetDeclarators_free : ∀ list : List Declarator, MeetDeclarators .free false list
  | [] => trivial
  | .mk p (some e) :: rest => ⟨p.meets_free, e.meets_free, meetDeclarators_free rest⟩
  | .mk p none :: rest => ⟨p.meets_free, meetDeclarators_free rest⟩

theorem meetCases_free : ∀ list : List Case, MeetCases .free false list
  | [] => trivial
  | .mk (some e) list :: rest => ⟨e.meets_free, meetStmts_free list, meetCases_free rest⟩
  | .mk none list :: rest => ⟨meetStmts_free list, meetCases_free rest⟩

theorem meetOption_free : ∀ e : Option Expr, MeetOption .free false e
  | some e => e.meets_free
  | none => trivial

theorem Stmt.meets_free : ∀ s : Stmt, s.Meets .free false
  | .empty | .break | .continue => trivial
  | .unsupported _ => trivial
  | .expression e | .throw e => e.meets_free
  | .variables _ declarators => meetDeclarators_free declarators
  | .function _ parameters body => ⟨meetPatterns_free parameters, meetStmts_free body⟩
  | .block list => meetStmts_free list
  | .branch test yes no => ⟨test.meets_free, yes.meets_free, no.meets_free⟩
  | .forLoop start test update body =>
    ⟨start.meets_free, meetOption_free test, meetOption_free update, body.meets_free⟩
  | .forEach _ target collection body =>
    ⟨target.meets_free, collection.meets_free, body.meets_free⟩
  | .whileLoop test body | .doLoop body test => ⟨test.meets_free, body.meets_free⟩
  | .return value => meetOption_free value
  | .tryCatch list parameter handler =>
    ⟨meetStmts_free list, parameter.meets_free, meetStmts_free handler⟩
  | .tryFinally body finalizer => ⟨body.meets_free, meetStmts_free finalizer⟩
  | .select e cases => ⟨e.meets_free, meetCases_free cases⟩

theorem meetStmts_free : ∀ list : List Stmt, MeetStmts .free false list
  | [] => trivial
  | s :: rest => ⟨s.meets_free, meetStmts_free rest⟩

end

theorem Task.meets_free : ∀ task : Task, task.Meets .free false
  | .expression e _ => e.meets_free
  | .statement s _ => s.meets_free
  | .bind p _ _ _ => p.meets_free
  | .call _ _ place => ⟨rfl, Demand.free_place place⟩

theorem Machine.meets_free (m : Machine) : m.Meets .free :=
  fun _ => ⟨meetPatterns_free _, meetStmts_free _⟩

end Stencil.Script
