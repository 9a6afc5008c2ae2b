import Mathlib.Data.List.TakeWhile
import Stencil.Include.Argument
import Stencil.Proofs.Script.WellRead

/-! # Arguments that have a text

Which expressions have a text before anything runs is said here as a grammar of its own, with the
text of each form next to it.  An argument is judged by the expression that it begins with: it has
the text of that expression, or is refused because the expression has none, or cannot be read at
all.  What stands behind the expression takes no part in this, so that the verdict is one on the
argument as a whole only where nothing does.
-/
namespace Stencil.Include
open Script

/-! ## Expressions with a text -/

/-- A function that joins the segments of a path. -/
inductive JoinCallee : Expr → Prop
  | name (span : Span) : JoinCallee (.name span "join")
  | member (span ownerSpan nameSpan : Span) {owner : String} (howner : owner ∈ ["path", "posix"]) :
    JoinCallee (.member span (.name ownerSpan owner) "join" nameSpan false)

mutual

/-- An expression has a text before anything runs. -/
inductive StaticExpr : Expr → String → Prop
  | string (span : Span) (text : String) : StaticExpr (.string span text) text
  | number (span : Span) (x : Float) : StaticExpr (.number span x) (numberText x)
  | template (span : Span) (text : String) : StaticExpr (.template span [text] []) text
  | paren (span : Span) {inner : Expr} {text : String} (hinner : StaticExpr inner text) :
    StaticExpr (.paren span inner) text
  | sum (span : Span) {left right : Expr} {first second : String} (hleft : StaticExpr left first)
    (hright : StaticExpr right second) : StaticExpr (.binary span .add left right) (first ++ second)
  | join (span : Span) {callee : Expr} {arguments : List Element} {segments : List String}
    (hcallee : JoinCallee callee) (harguments : StaticArguments arguments segments) :
    StaticExpr (.call span callee arguments false) (Path.joinSegments segments)

/-- Arguments have texts before anything runs, and none of them is spread. -/
inductive StaticArguments : List Element → List String → Prop
  | nil : StaticArguments [] []
  | cons {e : Expr} {text : String} {rest : List Element} {texts : List String}
    (hitem : StaticExpr e text) (hrest : StaticArguments rest texts) :
    StaticArguments (.item e :: rest) (text :: texts)

end

theorem JoinCallee.isJoin {callee : Expr} (h : JoinCallee callee) : isJoin callee = true := by
  cases h with
  | name span => simp [Include.isJoin]
  | member span ownerSpan nameSpan howner => simpa [Include.isJoin] using howner

theorem isJoin_iff {callee : Expr} (h : callee.WellRead) :
    isJoin callee = true ↔ JoinCallee callee := by
  refine ⟨fun hjoin => ?_, JoinCallee.isJoin⟩
  unfold isJoin at hjoin
  split at hjoin
  · obtain rfl := beq_iff_eq.mp hjoin
    exact .name _
  · obtain ⟨hname, howner⟩ := Bool.and_eq_true_iff.mp hjoin
    obtain rfl := beq_iff_eq.mp hname
    obtain rfl := h
    exact .member _ _ _ (by simpa using howner)
  · cases hjoin

theorem except_bind_eq_ok {ε α β : Type} {x : Except ε α} {f : α → Except ε β} {b : β} :
    (x >>= f) = .ok b ↔ ∃ a, x = .ok a ∧ f a = .ok b := by
  cases x with
  | error err => exact ⟨fun h => (by cases h), fun ⟨_, h, _⟩ => (by cases h)⟩
  | ok a => exact ⟨fun h => ⟨a, rfl, h⟩, fun ⟨_, ha, h⟩ => (Except.ok.inj ha) ▸ h⟩

mutual

/-- An expression as a source can say it has a text exactly if its form is one of those. -/
theorem staticText_eq_ok (source : List Char) (e : Expr) (v : String) (h : e.WellRead) :
    staticText source e = .ok v ↔ StaticExpr e v := by
  cases e with
  | string span text =>
    constructor
    · rintro ⟨⟩
      exact .string span _
    · rintro ⟨⟩
      rfl
  | number span x =>
    constructor
    · rintro ⟨⟩
      exact .number span x
    · rintro ⟨⟩
      rfl
  | template span texts values =>
    cases values with
    | nil =>
      obtain ⟨text, rfl⟩ := List.length_eq_one_iff.mp h
      have htext : staticText source (.template span [text] []) = .ok text := by
        simp [staticText]
      rw [htext]
      constructor
      · rintro ⟨⟩
        exact .template span _
      · rintro ⟨⟩
        rfl
    | cons value values =>
      constructor
      · rintro ⟨⟩
      · rintro ⟨⟩
  | paren span inner =>
    have hinner := staticText_eq_ok source inner v h
    constructor
    · exact fun htext => .paren span (hinner.mp htext)
    · rintro ⟨⟩
      exact hinner.mpr ‹_›
  | binary span op left right =>
    have hleft := fun a => staticText_eq_ok source left a h.1
    have hright := fun b => staticText_eq_ok source right b h.2
    by_cases hop : op = .add
    · subst hop
      have hsum : staticText source (.binary span .add left right) = .ok v ↔
          ∃ a, staticText source left = .ok a ∧ ∃ b, staticText source right = .ok b ∧
            a ++ b = v := by
        simp [staticText, except_bind_eq_ok, pure, Except.pure]
      rw [hsum]
      constructor
      · rintro ⟨a, ha, b, hb, rfl⟩
        exact .sum span ((hleft a).mp ha) ((hright b).mp hb)
      · rintro ⟨⟩
        rename_i hfirst hsecond
        exact ⟨_, (hleft _).mpr hfirst, _, (hright _).mpr hsecond, rfl⟩
    · constructor
      · intro htext
        simp [staticText, hop] at htext
      · rintro ⟨⟩
        exact absurd rfl hop
  | call span callee arguments optional =>
    obtain ⟨rfl, hcallee, harguments⟩ := h
    have hjoin := isJoin_iff hcallee
    have hsegments := fun texts => staticSegments_eq_ok source arguments texts harguments
    by_cases hcall : isJoin callee = true
    · have htext : staticText source (.call span callee arguments false) = .ok v ↔
          ∃ texts, staticSegments source arguments = .ok texts ∧
            Path.joinSegments texts = v := by
        simp [staticText, hcall, except_bind_eq_ok, pure, Except.pure]
      rw [htext]
      constructor
      · rintro ⟨texts, htexts, rfl⟩
        exact .join span (hjoin.mp hcall) ((hsegments texts).mp htexts)
      · rintro ⟨⟩
        rename_i htexts
        exact ⟨_, (hsegments _).mpr htexts, rfl⟩
    · constructor
      · intro htext
        simp [staticText, hcall] at htext
      · rintro ⟨⟩
        rename_i hcallee _
        exact absurd (hjoin.mpr hcallee) hcall
  | _ =>
    constructor
    · rintro ⟨⟩
    · rintro ⟨⟩

theorem staticSegments_eq_ok (source : List Char) (list : List Element) (texts : List String)
    (h : WellReadArguments list) :
    staticSegments source list = .ok texts ↔ StaticArguments list texts := by
  cases list with
  | nil =>
    constructor
    · rintro ⟨⟩
      exact .nil
    · rintro ⟨⟩
      rfl
  | cons x rest =>
    cases x with
    | item e =>
      have hitem := fun text => staticText_eq_ok source e text h.1
      have hrest := fun texts => staticSegments_eq_ok source rest texts h.2
      have hlist : staticSegments source (.item e :: rest) = .ok texts ↔
          ∃ text, staticText source e = .ok text ∧ ∃ more, staticSegments source rest = .ok more ∧
            text :: more = texts := by
        simp [staticSegments, except_bind_eq_ok, pure, Except.pure]
      rw [hlist]
      constructor
      · rintro ⟨text, htext, more, hmore, rfl⟩
        exact .cons ((hitem text).mp htext) ((hrest more).mp hmore)
      · rintro ⟨⟩
        rename_i htext hmore
        exact ⟨_, (hitem _).mpr htext, _, (hrest _).mpr hmore, rfl⟩
    | spread span e =>
      constructor
      · rintro ⟨⟩
      · rintro ⟨⟩
    | hole => cases h

end

/-! ## Expressions without a text -/

/-- If a text is not found, the reason is that something has none before anything runs. -/
def OnlyRefuses {α : Type} (x : Except ArgumentError α) : Prop :=
  ∀ err, x = .error err → ∃ construct, err = .notStatic construct

theorem OnlyRefuses.bind {α β : Type} {x : Except ArgumentError α}
    {f : α → Except ArgumentError β} (hx : OnlyRefuses x) (hf : ∀ a, OnlyRefuses (f a)) :
    OnlyRefuses (x >>= f) := by
  cases x with
  | error err =>
    intro err' h
    obtain rfl := Except.error.inj h
    exact hx err rfl
  | ok a => exact hf a

theorem onlyRefuses_ok {α : Type} (a : α) : OnlyRefuses (.ok a) := fun _ h => by cases h

theorem onlyRefuses_refusal {α : Type} (source : List Char) (span : Span) :
    OnlyRefuses (.error (refusal source span) : Except ArgumentError α) := by
  intro err h
  obtain rfl := Except.error.inj h
  exact ⟨_, rfl⟩

mutual

theorem onlyRefuses_staticText (source : List Char) (e : Expr) :
    OnlyRefuses (staticText source e) := by
  cases e with
  | string span text => exact onlyRefuses_ok _
  | number span x => exact onlyRefuses_ok _
  | template span texts values =>
    rw [staticText]
    split
    · exact onlyRefuses_ok _
    · exact onlyRefuses_refusal source _
  | paren span inner => exact onlyRefuses_staticText source inner
  | binary span op left right =>
    rw [staticText]
    split
    · exact .bind (onlyRefuses_staticText source left) fun _ =>
        .bind (onlyRefuses_staticText source right) fun _ => onlyRefuses_ok _
    · exact onlyRefuses_refusal source _
  | call span callee arguments optional =>
    rw [staticText]
    split
    · exact .bind (onlyRefuses_staticSegments source arguments) fun _ => onlyRefuses_ok _
    · exact onlyRefuses_refusal source _
  | _ => exact onlyRefuses_refusal source _

theorem onlyRefuses_staticSegments (source : List Char) (list : List Element) :
    OnlyRefuses (staticSegments source list) := by
  cases list with
  | nil => exact onlyRefuses_ok _
  | cons x rest =>
    cases x with
    | item e =>
      exact .bind (onlyRefuses_staticText source e) fun _ =>
        .bind (onlyRefuses_staticSegments source rest) fun _ => onlyRefuses_ok _
    | spread span e => exact onlyRefuses_refusal source span
    | hole => exact onlyRefuses_staticSegments source rest

end

/-! ## Arguments -/

/-- The expression that a source begins with, and the token behind it. The token is the end of the
source if nothing is left over. -/
def BeginsWith (source : String) (e : Expr) (behind : Token) : Prop :=
  ∃ r, (Grammar.forLength source.toList.length).fullExpression (.ofSource false source.toList) =
    .ok (e, r) ∧ r.finalFault? = none ∧ r.repeatedExport? = none ∧ r.lexeme.token = behind

theorem readExpression_eq_ok {source : String} {e : Expr} :
    readExpression source = .ok e ↔ ∃ behind, BeginsWith source e behind := by
  simp only [readExpression, readSource_eq_ok, BeginsWith]
  constructor
  · rintro ⟨r, hread, hfault, hexport⟩
    exact ⟨_, r, hread, hfault, hexport, rfl⟩
  · rintro ⟨_, r, hread, hfault, hexport, -⟩
    exact ⟨r, hread, hfault, hexport⟩

theorem BeginsWith.unique {source : String} {e e' : Expr} {behind behind' : Token}
    (h : BeginsWith source e behind) (h' : BeginsWith source e' behind') :
    e = e' ∧ behind = behind' := by
  obtain ⟨r, hread, -, -, rfl⟩ := h
  obtain ⟨r', hread', -, -, rfl⟩ := h'
  obtain ⟨rfl, rfl⟩ := Parse.ok_inj (hread.symm.trans hread')
  exact ⟨rfl, rfl⟩

/-- Nothing is no expression. -/
theorem readExpression_empty (e : Expr) : readExpression "" ≠ .ok e := by
  have h : readExpression "" = .error ⟨"unexpected token", 0⟩ := by rfl
  rw [h]
  simp

theorem trimText_eq_empty {s : String} : trimText s = "" ↔ ∀ c ∈ s.toList, isBlank c = true := by
  have hnil : trimText s = "" ↔ ∀ c ∈ s.toList.dropWhile isBlank, isBlank c = true := by
    simp [trimText, trimChars, trimCharsEnd, List.dropWhile_eq_nil_iff]
  rw [hnil]
  refine ⟨fun h c hc => ?_, fun h c hc => h c ((List.dropWhile_sublist _).subset hc)⟩
  rw [← List.takeWhile_append_dropWhile (p := isBlank) (l := s.toList), List.mem_append] at hc
  exact hc.elim (List.all_eq_true.mp List.all_takeWhile c) (h c)

/-- What is read as an expression is not blank. -/
theorem exists_not_blank {s : String} {e : Expr} (h : readExpression (trimText s) = .ok e) :
    ∃ c ∈ s.toList, isBlank c = false := by
  have hne : trimText s ≠ "" := fun hempty => readExpression_empty e (hempty ▸ h)
  simpa using fun hblank => hne (trimText_eq_empty.mpr hblank)

/-- The verdict on an argument whose text says the expressions in `Says`. -/
structure Judges (argument : String) (Says : Expr → Prop) : Prop where
  /-- An argument is empty if it is blank. -/
  empty : argumentText argument = .error .empty ↔ ∀ c ∈ argument.toList, isBlank c = true
  /-- It has the text of an expression with a text. -/
  accepts (text : String) : argumentText argument = .ok text ↔ ∃ e, Says e ∧ StaticExpr e text
  /-- It is refused if it says an expression without one. -/
  refuses : (∃ construct, argumentText argument = .error (.notStatic construct)) ↔
    ∃ e, Says e ∧ ∀ text, ¬ StaticExpr e text
  /-- It cannot be read if it is not blank and says none. -/
  rejects :
    (∃ message, argumentText argument = .error (.unreadable (trimText argument) message)) ↔
      (∃ c ∈ argument.toList, isBlank c = false) ∧ ∀ e, ¬ Says e

/-- An argument that says an expression is judged by its form. -/
theorem judges_of_ok {argument : String} {e : Expr}
    (hread : readExpression (trimText argument) = .ok e) : Judges argument fun e' => e = e' := by
  have hne : trimText argument ≠ "" := fun h => readExpression_empty e (h ▸ hread)
  have hblank : ¬ ∀ c ∈ argument.toList, isBlank c = true := mt trimText_eq_empty.mpr hne
  have htext : argumentText argument = staticText (trimText argument).toList e := by
    simp [argumentText, hne, hread]
  have hok := fun v => staticText_eq_ok (trimText argument).toList e v
    (wellRead_readExpression hread)
  have hrefuses := onlyRefuses_staticText (trimText argument).toList e
  rw [← htext] at hrefuses
  simp only [← htext] at hok
  constructor
  case empty =>
    refine ⟨fun h => ?_, fun h => absurd h hblank⟩
    obtain ⟨construct, hconstruct⟩ := hrefuses _ h
    cases hconstruct
  case accepts => exact fun text => by simp [hok]
  case refuses =>
    constructor
    · rintro ⟨construct, h⟩
      refine ⟨e, rfl, fun text hstatic => ?_⟩
      rw [(hok text).mpr hstatic] at h
      cases h
    · rintro ⟨_, rfl, hnone⟩
      cases hresult : argumentText argument with
      | ok text => exact absurd ((hok text).mp hresult) (hnone text)
      | error err =>
        obtain ⟨construct, rfl⟩ := hrefuses err hresult
        exact ⟨construct, rfl⟩
  case rejects =>
    constructor
    · rintro ⟨message, h⟩
      obtain ⟨construct, hconstruct⟩ := hrefuses _ h
      cases hconstruct
    · exact fun ⟨_, hnone⟩ => absurd rfl (hnone e)

/-- An argument that says no expression is empty or cannot be read. -/
theorem judges_of_not_ok {argument : String}
    (hread : ∀ e, readExpression (trimText argument) ≠ .ok e) : Judges argument fun _ => False := by
  by_cases hempty : trimText argument = ""
  · have htext : argumentText argument = .error .empty := by simp [argumentText, hempty]
    have hblank := trimText_eq_empty.mp hempty
    constructor
    case empty => simpa [htext] using hblank
    case accepts => simp [htext]
    case refuses => simp [htext]
    case rejects => simpa [htext] using hblank
  · obtain ⟨fault, hfault⟩ : ∃ fault, readExpression (trimText argument) = .error fault := by
      cases h : readExpression (trimText argument) with
      | ok e => exact absurd h (hread e)
      | error fault => exact ⟨fault, rfl⟩
    have htext : argumentText argument =
        .error (.unreadable (trimText argument) fault.message) := by
      simp [argumentText, hempty, hfault]
    have hblank : ∃ c ∈ argument.toList, isBlank c = false := by
      simpa using fun h => hempty (trimText_eq_empty.mpr h)
    constructor
    case empty => simpa [htext] using hblank
    case accepts => simp [htext]
    case refuses => simp [htext]
    case rejects => simpa [htext] using hblank

theorem judges_iff_ok {argument : String} {Says : Expr → Prop}
    (hmeaning : ∀ e, Says e ↔ readExpression (trimText argument) = .ok e) :
    Judges argument Says := by
  cases hread : readExpression (trimText argument) with
  | ok e =>
    have hsame : Says = fun e' => e = e' := by
      funext e'
      simp [hmeaning, hread]
    exact hsame ▸ judges_of_ok hread
  | error fault =>
    have hsame : Says = fun _ => False := by
      funext e'
      simp [hmeaning, hread]
    exact hsame ▸ judges_of_not_ok (by simp [hread])

/-- **An argument is judged by the expression that it begins with.** It has the text of that
expression, is refused because the expression has none, cannot be read if it begins with none, and
is empty if it is blank. That is the verdict on the argument as one expression if, and only if,
nothing stands behind the expression that it begins with. -/
theorem argumentText_judges (argument : String) :
    Judges argument (fun e => ∃ behind, BeginsWith (trimText argument) e behind) ∧
      (Judges argument (fun e => BeginsWith (trimText argument) e .stop) ↔
        ∀ e behind, BeginsWith (trimText argument) e behind → behind = .stop) := by
  have hjudges : Judges argument (fun e => ∃ behind, BeginsWith (trimText argument) e behind) :=
    judges_iff_ok fun e => readExpression_eq_ok.symm
  refine ⟨hjudges, fun hwhole e behind hbegins => ?_, fun hstop => ?_⟩
  · -- an argument that is no expression as a whole would be unreadable, and is not
    by_contra hbehind
    have hnone : ∀ e', ¬ BeginsWith (trimText argument) e' .stop := fun e' hbegins' =>
      hbehind (hbegins.unique hbegins').2
    have hblank := exists_not_blank (readExpression_eq_ok.mpr ⟨behind, hbegins⟩)
    have hunreadable := hwhole.rejects.mpr ⟨hblank, hnone⟩
    exact (hjudges.rejects.mp hunreadable).2 e ⟨behind, hbegins⟩
  · have hsame : (fun e => ∃ behind, BeginsWith (trimText argument) e behind) =
        fun e => BeginsWith (trimText argument) e .stop := by
      funext e
      refine propext ⟨?_, fun h => ⟨_, h⟩⟩
      rintro ⟨behind, hbegins⟩
      exact hstop e behind hbegins ▸ hbegins
    exact hsame ▸ hjudges

/-- Two texts are no expression, but an argument that says both has the text of the first one. -/
theorem second_text_is_ignored : argumentText "'a' 'b'" = .ok "a" ∧
    ¬ Judges "'a' 'b'" (fun e => BeginsWith (trimText "'a' 'b'") e .stop) := by
  have htext : argumentText "'a' 'b'" = .ok "a" := by rfl
  refine ⟨htext, fun hwhole => ?_⟩
  obtain ⟨e, ⟨r, hread, -, -, hstop⟩, -⟩ := (hwhole.accepts "a").mp htext
  have hbehind : ((Grammar.forLength (trimText "'a' 'b'").toList.length).fullExpression
      (.ofSource false (trimText "'a' 'b'").toList)).map (fun p => p.2.lexeme.token) =
        .ok (.string "b") := by rfl
  rw [hread] at hbehind
  have htoken : r.lexeme.token = .string "b" := Except.ok.inj hbehind
  rw [hstop] at htoken
  cases htoken

end Stencil.Include
