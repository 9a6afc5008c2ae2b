import Stencil.Proofs.Script.Globals
import Stencil.Proofs.Script.Sentence

/-! # Running scripts that write

A script begins with the function that writes under its name, unless the context redefines it.  A
call of that function leaves the text in the output, so that a script which consists of one such
call ends with the text, if there is time to look at the clock once.  This is so for the code that
a template's text is compiled to, and for the literal that a script makes of a text by escaping it.
-/
namespace Stencil.Script
open Template (writeStatement)

/-! ## Steps of a run -/

/-- From every machine that meets a condition a step ends normally, and its result and the machine
behind it meet another one. -/
def Leads {α : Type} (pre : Machine → Prop) (step : Exec α) (post : α → Machine → Prop) : Prop :=
  ∀ m, pre m → ∃ a m', step m = .ok a m' ∧ post a m'

section

variable {α β : Type} {pre : Machine → Prop} {mid post : α → Machine → Prop}

theorem leads_pure {a : α} (h : ∀ m, pre m → post a m) : Leads pre (pure a) post :=
  fun m hm => ⟨a, m, rfl, h m hm⟩

theorem leads_modify {change : Machine → Machine} {post : Unit → Machine → Prop}
    (h : ∀ m, pre m → post () (change m)) : Leads pre (modify change) post :=
  fun m hm => ⟨(), change m, rfl, h m hm⟩

theorem leads_get : Leads pre get fun m m' => m = m' ∧ pre m :=
  fun m hm => ⟨m, m, rfl, rfl, hm⟩

theorem Leads.bind {step : Exec α} {next : α → Exec β} {post : β → Machine → Prop}
    (h : Leads pre step mid) (h' : ∀ a, Leads (mid a) (next a) post) :
    Leads pre (step >>= next) post := by
  intro m hm
  obtain ⟨a, m', hstep, hmid⟩ := h m hm
  obtain ⟨b, m'', hnext, hpost⟩ := h' a m' hmid
  refine ⟨b, m'', ?_, hpost⟩
  show EStateM.bind step next m = _
  simp only [EStateM.bind, hstep, hnext]

/-- A loop over a list keeps what each of its rounds keeps. -/
theorem leads_forIn {list : List α} {round : α → PUnit → Exec (ForInStep PUnit)}
    (h : ∀ x ∈ list, Leads pre (round x ⟨⟩) fun step m => step = .yield ⟨⟩ ∧ pre m) :
    Leads pre (forIn list ⟨⟩ round) fun _ => pre := by
  induction list with
  | nil => exact leads_pure fun m hm => hm
  | cons x list ih =>
    rw [List.forIn_cons]
    refine (h x List.mem_cons_self).bind fun step => ?_
    have hrest := ih fun y hy => h y (List.mem_cons_of_mem x hy)
    rintro m ⟨rfl, hm⟩
    exact hrest m hm

/-- A round of a loop over names ends as it should if its step does. -/
theorem Leads.round {post : Machine → Prop} {step : Exec Unit}
    (h : Leads pre step fun _ => post) :
    Leads pre (do step; pure (ForInStep.yield PUnit.unit))
      fun result m => result = .yield ⟨⟩ ∧ post m :=
  h.bind fun _ => leads_pure fun _ hm => ⟨rfl, hm⟩

end

/-! ## Clocks -/

/-- A clock by which a run may go on. -/
def Clock.Running (c : Clock) : Prop := c.looksLeft ≠ some 0

/-- A clock that can be looked at a number of times. -/
def Clock.Allows (c : Clock) (looks : Nat) : Prop := ∀ left, c.looksLeft = some left → looks ≤ left

variable {clock : Clock} {m now m' : Machine}

theorem Clock.Running.allows (h : clock.Running) : clock.Allows 1 := fun _ hleft =>
  Nat.one_le_iff_ne_zero.mpr fun hzero => h (hzero ▸ hleft)

/-- Looking at the clock changes no more than the clock. -/
theorem scopes_tick (h : tick m = .ok () m') : m'.scopes = m.scopes := by
  obtain ⟨scopes, heap, closures, output, depth, ⟨looks⟩⟩ := m
  match looks, h with
  | none, h => cases h; rfl
  | some (n + 1), h => cases h; rfl

theorem tick_of_allows {looks : Nat} (h : m.clock.Allows (looks + 1)) :
    ∃ later : Clock, later.Allows looks ∧ tick m = .ok () { m with clock := later } := by
  obtain ⟨scopes, heap, closures, output, depth, ⟨looksLeft⟩⟩ := m
  match looksLeft with
  | none => exact ⟨⟨none⟩, nofun, rfl⟩
  | some 0 => exact absurd (h 0 rfl) (Nat.not_succ_le_zero looks)
  | some (left + 1) =>
    refine ⟨⟨some left⟩, ?_, rfl⟩
    rintro _ ⟨⟩
    exact Nat.le_of_succ_le_succ (h _ rfl)

/-! ## Evaluating calls -/

namespace Runner

/-- The runner whose tasks go down at most `depth` tasks. -/
def deep (source : List Char) (bound depth : Nat) : Runner :=
  ⟨source, bound, runTask source bound depth⟩

theorem bounded_eq (source : List Char) (bound : Nat) :
    bounded source bound = deep source bound bound := rfl

variable {source : List Char} {bound depth scope : Nat} {span nameSpan : Span} {name : String}
  {e : Expr} {f : Native} {v : Value}

theorem expression_name (hname : m.scopes.lookup scope name = some v) :
    (deep source bound (depth + 1)).expression (.name span name) scope m = .ok v m := by
  show readVariable scope name span.start m = _
  rw [readVariable, bind_eq_ok (rfl : (get : Exec Machine) m = .ok m m), hname]
  rfl

theorem expression_string (text : String) :
    (deep source bound (depth + 1)).expression (.string span text) scope m =
      .ok (.string text) m := rfl

theorem elements_item {r : Runner} (h : r.expression e scope m = .ok v m') :
    r.elements scope [.item e] m = .ok [v] m' := by
  rw [elements, bind_eq_ok h]
  rfl

theorem expression_member {owner : Expr} (hvalue : v.isNullish = false)
    (howner : (deep source bound depth).expression owner scope m = .ok v m') :
    (deep source bound (depth + 1)).expression (.member span owner name nameSpan false) scope m =
      .ok (m'.heap.member v name) m' := by
  show (deep source bound depth).member owner name nameSpan false scope m = _
  rw [Runner.member, bind_eq_ok howner, Bool.false_and, if_neg nofun]
  show (if v.isNullish then _ else (return m'.heap.member v name : Exec Value)) m' = _
  rw [hvalue, if_neg nofun]
  rfl

/-- A call of a function of all scripts is evaluated by evaluating what stands for the function and
then the argument. -/
theorem expression_call {callee : Expr} {mid : Machine} (htick : tick m = .ok () now)
    (hcallee : (deep source bound (depth + 1)).expression callee scope now = .ok (.native f) mid)
    (hvalue : (deep source bound (depth + 1)).expression e scope mid = .ok v m') :
    (deep source bound (depth + 2)).expression (.call span callee [.item e] false) scope m =
      callNative f [v] m' := by
  show (deep source bound (depth + 1)).callExpression callee [.item e] false scope span.start m = _
  rw [callExpression, bind_eq_ok htick, bind_eq_ok hcallee, Bool.false_and, if_neg nofun,
    bind_eq_ok (elements_item hvalue)]
  rfl

/-- A call of a function of all scripts by its name. -/
theorem expression_callName (htick : tick m = .ok () now)
    (hname : now.scopes.lookup scope name = some (.native f))
    (hvalue : (deep source bound (depth + 1)).expression e scope now = .ok v m') :
    (deep source bound (depth + 2)).expression
      (.call span (.name nameSpan name) [.item e] false) scope m = callNative f [v] m' :=
  expression_call htick (expression_name hname) hvalue

/-- A statement that is an expression, with any number of empty ones in front of it. -/
theorem block_expression (count : Nat)
    (h : (deep source bound depth).expression e scope m = .ok v m') :
    (deep source bound (depth + 1)).block (List.replicate count .empty ++ [.expression e]) scope m =
      .ok .normal m' := by
  -- none of the statements declares anything
  have hhoist : ∀ s ∈ List.replicate count Stmt.empty ++ [.expression e],
      Leads (· = m) (hoist scope s) fun _ => (· = m) := by
    intro s hs
    rw [List.mem_append, List.mem_replicate, List.mem_singleton] at hs
    obtain ⟨-, rfl⟩ | rfl := hs
    all_goals exact leads_pure fun _ hm => hm
  have hall : Leads (· = m) (forIn (List.replicate count Stmt.empty ++ [.expression e]) PUnit.unit
      fun s _ => do
        hoist scope s
        pure (.yield PUnit.unit)) fun _ => (· = m) :=
    leads_forIn fun s hs => (hhoist s hs).round
  obtain ⟨_, _, hloop, rfl⟩ := hall m rfl
  rw [block, bind_eq_ok hloop]
  clear hhoist hall hloop
  induction count with
  | zero =>
    have hlast : (deep source bound (depth + 1)).statement (.expression e) scope _ = _ :=
      bind_eq_ok h
    exact bind_eq_ok hlast
  | succ count ih => exact ih

end Runner

/-! ## Functions that write -/

variable {v : Value} {values : List Value}

/-- What is written comes to stand behind what has been written before. -/
theorem callNative_write : callNative .write [v] m =
    .ok .undefined { m with output := m.output ++ m.heap.text v } := rfl

theorem callNative_writeScript : callNative .writeScript [v] m =
    .ok .undefined { m with output := m.output ++ escapeScript (m.heap.text v) } := rfl

/-! ## Whole runs -/

/-- A script ends with what its statements have written. -/
theorem runScript_block {code : String} {globals : Globals} {program : Program} {flow : Flow}
    (hread : readProgram code = .ok program)
    (h : (Runner.bounded code.toList amplyBounded).block program Scopes.globalPlace
      (.begun globals clock) = .ok flow m) : runScript code globals clock = .ok m.output := by
  have hexec : execProgram code.toList amplyBounded globals program (.start clock) = .ok () m := by
    rw [execProgram, bind_eq_ok (install_start globals clock), bind_eq_ok h]
    rfl
  unfold runScript
  rw [hread]
  show runProgram _ _ _ _ _ = _
  rw [runProgram, hexec]

/-- A script that is one expression, with any number of semicolons in front of it, ends with what
evaluating the expression has written. -/
theorem runScript_expression {code : String} {globals : Globals} {depth : Nat} {e : Expr}
    (count : Nat) (hdepth : amplyBounded = depth + 1)
    (hread : readProgram code = .ok (List.replicate count .empty ++ [.expression e]))
    (h : (Runner.deep code.toList amplyBounded depth).expression e Scopes.globalPlace
      (.begun globals clock) = .ok v m) : runScript code globals clock = .ok m.output := by
  have hblock := Runner.block_expression count h
  rw [← hdepth, ← Runner.bounded_eq] at hblock
  exact runScript_block hread hblock

/-- The clock can be looked at before the first statement. -/
theorem tick_begun {globals : Globals} {looks : Nat} (h : clock.Allows (looks + 1)) :
    ∃ later : Clock, later.Allows looks ∧
      tick (.begun globals clock) = .ok () (.begun globals later) := by
  obtain ⟨later, hlater, htick⟩ := tick_of_allows ((begins_begun globals clock).clock.symm ▸ h)
  exact ⟨later, hlater, begun_clock globals clock later ▸ htick⟩

/-- **A script that calls a function of all scripts** ends with what that function leaves in the
output, if evaluating the argument takes no more looks at the clock than there are left. -/
theorem runScript_call {code name text : String} {globals : Globals} {f : Native}
    {count looks : Nat} {span nameSpan : Span} {e : Expr} (hname : (name, f) ∈ nativeNames)
    (hglobals : ¬ Redefines globals.context name) (hclock : clock.Allows (looks + 1))
    (hread : readProgram code = .ok (List.replicate count .empty ++
      [.expression (.call span (.name nameSpan name) [.item e] false)]))
    (hargument : ∀ later : Clock, later.Allows looks → ∀ depth, ∃ v m result m',
      (Runner.deep code.toList amplyBounded (depth + 3)).expression e Scopes.globalPlace
        (.begun globals later) = .ok v m ∧
      callNative f [v] m = .ok result m' ∧ m'.output = text) :
    runScript code globals clock = .ok text := by
  obtain ⟨depth, hdepth⟩ : ∃ depth, amplyBounded = depth + 5 :=
    Nat.exists_eq_add_of_le' (by decide)
  obtain ⟨later, hlater, htick⟩ := tick_begun hclock
  obtain ⟨_, hfunction, rfl⟩ := begun_offers_native hname hglobals later
  obtain ⟨v, m, result, m', hvalue, hcall, rfl⟩ := hargument later hlater depth
  have hexpression : (Runner.deep code.toList amplyBounded (depth + 4)).expression
      (.call span (.name nameSpan name) [.item e] false) Scopes.globalPlace (.begun globals clock) =
        .ok result m' :=
    (Runner.expression_callName htick hfunction hvalue).trans hcall
  exact runScript_expression count hdepth hread hexpression

/-- A script that writes a text ends with the text. -/
theorem runScript_writeCall {code text : String} {globals : Globals} (count : Nat)
    {span nameSpan textSpan : Span} (hglobals : ¬ Redefines globals.context "write")
    (hclock : clock.Running)
    (hread : readProgram code = .ok
      (List.replicate count .empty ++ [.expression (writeCall span nameSpan textSpan text)])) :
    runScript code globals clock = .ok text := by
  have hwrite : ("write", Native.write) ∈ nativeNames := by decide
  refine runScript_call hwrite hglobals hclock.allows hread fun later _ depth => ?_
  refine ⟨_, _, _, _, Runner.expression_string text, callNative_write, ?_⟩
  show (Machine.begun globals later).output ++ text = text
  rw [(begins_begun globals later).output, String.empty_append]

/-! ## Texts of templates -/

/-- The code that a text without regions is compiled to. -/
def plainCode (text : String) : String := if text = "" then "" else writeStatement text

/-- **The code of a text is a script that ends with the text**, if there is time. -/
theorem runScript_plainCode {globals : Globals} (hglobals : ¬ Redefines globals.context "write")
    (hclock : clock.Running) (text : String) :
    runScript (plainCode text) globals clock = .ok text := by
  unfold plainCode
  split
  · subst text
    rw [runScript_block readProgram_empty rfl, (begins_begun globals clock).output]
  · obtain ⟨span, nameSpan, textSpan, hread⟩ := readProgram_writeStatement text
    exact runScript_writeCall 1 hglobals hclock hread

/-! ## Escaped texts -/

/-- What the escaped form of a text is to the scripts that it is put into, between marks of a
kind. -/
structure Embeds (globals : Globals) (clock : Clock) (mark : QuoteMark) (text : String) :
    Prop where
  /-- The functions that escape leave it in the output or give it. -/
  written (v : Value) (m : Machine) : m.heap.text v = text →
    callNative .writeScript [v] m =
        .ok .undefined { m with output := m.output ++ escapeScript text } ∧
      callNative .escapeScript [v] m = .ok (.string (escapeScript text)) m
  /-- Wherever it stands in a literal, it is read as the text, and the literal goes on. -/
  inside (start fuel offset bound : Nat) (done rest : List Char) :
    readStringFrom mark.char start done (fuel + text.length)
        ⟨offset, (escapeScript text).toList ++ rest, bound⟩ =
      readStringFrom mark.char start (text.toList.reverse ++ done) fuel
        ⟨offset + (escapeScript text).length, rest, bound⟩
  /-- As the whole of a literal it is the text. -/
  read : ∃ span nameSpan textSpan, readProgram (writeEscaped mark text) =
    .ok [.expression (writeCall span nameSpan textSpan text)]
  run : runScript (writeEscaped mark text) globals clock = .ok text

/-- **An escaped text is the text again in a literal of a script**, between quotes of either kind:
it does not end the literal, and a script that writes the literal ends with the text. -/
theorem escapeScript_embeds {globals : Globals} (hglobals : ¬ Redefines globals.context "write")
    (hclock : clock.Running) (mark : QuoteMark) (text : String) :
    Embeds globals clock mark text where
  written v m hv := by
    subst hv
    exact ⟨callNative_writeScript, rfl⟩
  inside start fuel offset bound done rest := by
    rw [escapeScript, String.toList_ofList, String.length_ofList, ← String.length_toList]
    exact (readsBack_scriptChar mark).readStringFrom_append start text.toList done rest fuel offset
      bound
  read := readProgram_writeEscaped mark text
  run := by
    obtain ⟨span, nameSpan, textSpan, hread⟩ := readProgram_writeEscaped mark text
    exact runScript_writeCall 0 hglobals hclock hread

/-- A text with both kinds of quotes, a backslash at the end of a word, and characters that break a
line. -/
def quotingText : String := "it's \"C:\\n\"\u2028\r\n\x00"

/-- The quotes that a text holds do not end its literal. -/
theorem escapeScript_embeds_quotingText :
    ¬ Redefines (.object [("name", .string "write")]) "write" ∧ Clock.Running ⟨some 1⟩ ∧
      runScript (writeEscaped .single quotingText)
        ⟨"/main.exp", .object [("name", .string "write")]⟩ ⟨some 1⟩ = .ok quotingText := by
  have hcontext : ¬ Redefines (.object [("name", .string "write")]) "write" := by
    simp [redefines_iff, contextEntries, GlobalEntry.data]
  have hclock : Clock.Running ⟨some 1⟩ := by simp [Clock.Running]
  exact ⟨hcontext, hclock,
    (@escapeScript_embeds ⟨some 1⟩ ⟨"/main.exp", _⟩ hcontext hclock .single quotingText).run⟩

end Stencil.Script
