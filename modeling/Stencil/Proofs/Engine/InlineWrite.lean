import Stencil.Proofs.Engine.Alone
import Stencil.Proofs.Script.Lockstep
import Stencil.Proofs.Script.Parenthesis
import Stencil.Proofs.Script.Writing
import Stencil.Proofs.Template.Inline

/-! # Regions write their expression

The text of an inline region is the whole argument list of a call.  Where the text in parentheses of
its own is one expression, and no row of expressions between commas, the call has that expression as
its only argument, and rendering the region gives what evaluating the expression writes, and then
the value as a text.
-/
namespace Stencil
namespace Script

variable {text : String} {globals : Globals} {clock : Clock} {span : Span} {e : Expr} {v : Value}
  {m : Machine}

/-- In a script of some code, which begins with the names of all scripts and those of its context,
evaluating an expression after one look at the clock gives a value and ends with the machine `m`. -/
def Evaluates (code : String) (globals : Globals) (clock : Clock) (e : Expr) (v : Value)
    (m : Machine) : Prop :=
  (do
    install globals
    tick
    (Runner.deep code.toList amplyBounded (amplyBounded - 2)).expression e Scopes.globalPlace)
    (.start clock) = .ok v m

/-- **A text that is one expression is written.** -/
theorem runScript_writing
    (hread : readProgram (parenthesizing text) = .ok [.empty, .expression (.paren span e)])
    (hsingle : ∀ span items, e ≠ .sequence span items)
    (hglobals : ¬ Redefines globals.context "write")
    (heval : Evaluates (writing text) globals clock e v m) :
    runScript (writing text) globals clock = .ok (m.output ++ m.heap.text v) := by
  obtain ⟨callSpan, nameSpan, hprogram⟩ := readProgram_writing hread hsingle
  obtain ⟨depth, hdepth⟩ : ∃ depth, amplyBounded = depth + 3 :=
    Nat.exists_eq_add_of_le' (by decide)
  have hinside : amplyBounded - 2 = depth + 1 := by omega
  unfold Evaluates at heval
  rw [hinside] at heval
  obtain ⟨_, first, hinstall, hrest⟩ := exec_bind_eq_ok heval
  obtain ⟨_, now, htick, hvalue⟩ := exec_bind_eq_ok hrest
  obtain rfl : .begun globals clock = first := by
    rw [install_start] at hinstall
    cases hinstall
    rfl
  obtain ⟨_, hwrite, rfl⟩ :=
    begun_offers_native (by decide : ("write", .write) ∈ nativeNames) hglobals clock
  rw [← scopes_tick htick] at hwrite
  have hcall : (Runner.deep (writing text).toList amplyBounded (depth + 2)).expression
      (.call callSpan (.name nameSpan "write") [.item e] false) Scopes.globalPlace
        (.begun globals clock) = _ :=
    Runner.expression_callName htick hwrite hvalue
  exact runScript_expression 1 hdepth hprogram (hcall.trans callNative_write)

/-! ## Values of closed texts -/

/-- The expression that a source holds in parentheses, if that is all there is. -/
def loneParen? : Except Fault Program → Option (Span × Expr)
  | .ok [.empty, .expression (.paren span e)] => some (span, e)
  | _ => none

theorem eq_of_loneParen? {result : Except Fault Program} (h : loneParen? result = some (span, e)) :
    result = .ok [.empty, .expression (.paren span e)] := by
  unfold loneParen? at h
  split at h
  · cases h
    rfl
  · cases h

/-- Whether an expression is a row of expressions between commas. -/
def Expr.isSequence : Expr → Bool
  | .sequence _ _ => true
  | _ => false

/-- What evaluating an expression writes, and the text of its value behind it. -/
def written? (code : String) (globals : Globals) (clock : Clock) (e : Expr) : Option String :=
  match (do
    install globals
    tick
    (Runner.deep code.toList amplyBounded (amplyBounded - 2)).expression e Scopes.globalPlace
    : Exec Value) (.start clock) with
  | .ok v m => some (m.output ++ m.heap.text v)
  | .error _ _ => none

theorem evaluates_of_written? {code output : String}
    (h : written? code globals clock e = some output) :
    ∃ v m, Evaluates code globals clock e v m ∧ m.output ++ m.heap.text v = output := by
  unfold written? at h
  split at h
  · rename_i v m heval
    exact ⟨v, m, heval, Option.some.inj h⟩
  · cases h

/-- A text is one expression in parentheses, a row or not, and what evaluating that writes. -/
def finding (text : String) (globals : Globals) (clock : Clock) : Option (Bool × String) := do
  let (_, e) ← loneParen? (readProgram (parenthesizing text))
  let output ← written? (writing text) globals clock e
  return (e.isSequence, output)

theorem exists_of_finding {row : Bool} {output : String}
    (h : finding text globals clock = some (row, output)) : ∃ span e v m,
      readProgram (parenthesizing text) = .ok [.empty, .expression (.paren span e)] ∧
        e.isSequence = row ∧ Evaluates (writing text) globals clock e v m ∧
          m.output ++ m.heap.text v = output := by
  obtain ⟨⟨span, e⟩, hparen, h⟩ := Option.bind_eq_some_iff.mp h
  obtain ⟨written, hwritten, h⟩ := Option.bind_eq_some_iff.mp h
  obtain ⟨v, m, heval, houtput⟩ := evaluates_of_written? hwritten
  obtain ⟨rfl, rfl⟩ := Prod.mk.inj (Option.some.inj h)
  exact ⟨span, e, v, m, eq_of_loneParen? hparen, rfl, heval, houtput⟩

end Script

namespace Engine
open Script (Evaluates Redefines parenthesizing readProgram writing)
open Template (FitsRegion inlineTemplate)

theorem isCode_inlineTemplate {o : Options} (hmarks : o.templateSyntax = .default) {text : String}
    (htext : FitsRegion text.toList) :
    ((Engine.ofOptions o).dialect.tree (inlineTemplate text)).IsCode (writing text) := by
  have hclassifier : (Engine.ofOptions o).dialect.classifier =
      Template.Syntax.default.classify := by
    show o.templateSyntax.classify = _
    rw [hmarks]
  rw [Template.Tree.IsCode, Dialect.tree, hclassifier]
  exact Template.outline_inlineTemplate htext

/-- **A region that writes an expression gives its value as a text.**  Let the text of the region
have no closer but in quoted texts, leave no quote open, and be one expression if it is put in
parentheses, which is not a row of expressions between commas.  If the context leaves the function
that writes alone and evaluating the expression gives a value in time, then a template that is
nothing but the region is rendered, whatever the engine has been asked for before, as what
evaluating the expression writes, and behind it the text of the value. -/
theorem render_inlineWrite (o : Options) (hmarks : o.templateSyntax = .default) (files : Files)
    (mode : CacheMode) (requests : List Request) (path text : String) (context : Json)
    {span : Script.Span} {e : Script.Expr} {v : Script.Value} {m : Script.Machine}
    (htext : FitsRegion text.toList)
    (hread : readProgram (parenthesizing text) = .ok [.empty, .expression (.paren span e)])
    (hsingle : ∀ span items, e ≠ .sequence span items) (hcontext : ¬ Redefines context "write")
    (heval : Evaluates (writing text) ⟨Path.normalize path, context⟩ (.ofMillis o.timeoutMillis)
      e v m) :
    let engine := Engine.ofOptions o
    let w := engine.history files mode requests
    (engine.renderSource path (inlineTemplate text) context w).1 =
      .ok ⟨m.output ++ m.heap.text v, []⟩ ∧
    (files.read (Path.normalize path) = .ok (inlineTemplate text) →
      (engine.render path context w).1 = .ok ⟨m.output ++ m.heap.text v, []⟩) := by
  exact render_of_isCode files mode requests (isCode_inlineTemplate hmarks htext)
    (Script.runScript_writing hread hsingle hcontext heval)

/-- An expression that writes before it has a value, with the closer of regions in a string. -/
def writingText : String := "write('a') || \"b?>\""

theorem fitsRegion_writingText : FitsRegion writingText.toList := by decide +kernel

theorem render_inlineWrite_writing :
    Options.default.templateSyntax = .default ∧ FitsRegion writingText.toList ∧
    ∃ span e v m,
      readProgram (parenthesizing writingText) = .ok [.empty, .expression (.paren span e)] ∧
      (∀ span items, e ≠ .sequence span items) ∧ ¬ Redefines .null "write" ∧
      Evaluates (writing writingText) ⟨Path.normalize "/main.exp", .null⟩
        (.ofMillis Options.default.timeoutMillis) e v m ∧
      ((Engine.ofOptions .default).renderSource "/main.exp" (inlineTemplate writingText) .null
        (.fresh .empty .session)).1 = .ok ⟨"ab?>", []⟩ := by
  have hfinding : Script.finding writingText ⟨Path.normalize "/main.exp", .null⟩
      (.ofMillis Options.default.timeoutMillis) = some (false, "ab?>") := by decide +kernel
  obtain ⟨span, e, v, m, hread, hrow, heval, houtput⟩ := Script.exists_of_finding hfinding
  have hsingle : ∀ span items, e ≠ .sequence span items := by
    rintro span items rfl
    cases hrow
  have hcontext : ¬ Redefines .null "write" := by
    rintro ⟨fields, json, hfields, -⟩
    cases hfields
  have hrender := render_inlineWrite .default rfl .empty .session [] "/main.exp" writingText .null
    fitsRegion_writingText hread hsingle hcontext heval
  rw [houtput] at hrender
  exact ⟨rfl, fitsRegion_writingText, span, e, v, m, hread, hsingle, hcontext, heval, hrender.1⟩

/-- A row of two expressions between a comma. -/
def rowText : String := " 'a', 'b' "

/-- The expressions of a row are read as arguments of their own: the first is written, although the
row has the value of the last. -/
theorem row_is_read_as_arguments :
    FitsRegion rowText.toList ∧
    (∃ span e v m, readProgram (parenthesizing rowText) =
        .ok [.empty, .expression (.paren span e)] ∧
      Evaluates (writing rowText) ⟨Path.normalize "/main.exp", .null⟩
        (.ofMillis Options.default.timeoutMillis) e v m ∧ m.output ++ m.heap.text v = "b") ∧
    ((Engine.ofOptions .default).renderSource "/main.exp" (inlineTemplate rowText) .null
      (.fresh .empty .session)).1 = .ok ⟨"a", []⟩ := by
  have hfits : FitsRegion rowText.toList := by decide +kernel
  have hfinding : Script.finding rowText ⟨Path.normalize "/main.exp", .null⟩
      (.ofMillis Options.default.timeoutMillis) = some (true, "b") := by decide +kernel
  obtain ⟨span, e, v, m, hread, -, heval, houtput⟩ := Script.exists_of_finding hfinding
  have hrun : Script.runScript (writing rowText) ⟨Path.normalize "/main.exp", .null⟩
      (.ofMillis Options.default.timeoutMillis) = .ok "a" := by decide +kernel
  have hcode : ((Engine.ofOptions .default).dialect.tree (inlineTemplate rowText)).IsCode
      (writing rowText) := isCode_inlineTemplate rfl hfits
  have hrender := render_of_isCode .empty .session [] hcode hrun
  exact ⟨hfits, ⟨span, e, v, m, hread, heval, houtput⟩, hrender.1⟩

end Engine

end Stencil
