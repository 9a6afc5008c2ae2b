import Stencil.Proofs.Template.Inline
import Stencil.Proofs.Template.Segment

/-! # Balanced texts

What reads arguments only looks at where it stands: in a quoted text, or in some number of brackets.
A text is balanced if its quoted texts are complete and each of its brackets is closed by one of its
kind.  Such a text leads back to where it began, and on the way there is no parenthesis that closes
nothing, nor a comma outside of brackets unless the text may have one.
-/
namespace Stencil.Template

/-! ## Levels -/

/-- Where a reader of arguments stands. -/
structure Level where
  quoting : Quoting
  /-- The number of open brackets. -/
  depth : Nat
  deriving DecidableEq, Repr

namespace Level

/-- Outside of quoted texts and brackets. -/
def top : Level := ⟨.outside, 0⟩

/-- Passes one character. In a quoted text no bracket counts. -/
def step (l : Level) (c : Char) : Level :=
  ⟨l.quoting.step c, if l.quoting = .outside then depthBehind l.depth c else l.depth⟩

/-- A text leads from one level to another one, and `stop` does not stand at the top of it. -/
def Leads (stop : Char) : Level → List Char → Level → Prop
  | l, [], l' => l = l'
  | l, c :: cs, l' => (l = top → c ≠ stop) ∧ Leads stop (l.step c) cs l'

variable {stop c : Char} {l l' l'' : Level} {cs ds : List Char}

theorem Leads.append (h : Leads stop l cs l') (h' : Leads stop l' ds l'') :
    Leads stop l (cs ++ ds) l'' := by
  induction cs generalizing l with
  | nil =>
    obtain rfl : l = l' := h
    exact h'
  | cons c cs ih => exact ⟨h.1, ih h.2⟩

/-- In a quoted text nothing stands at the top. -/
theorem Leads.cons_quoted (hquoting : l.quoting ≠ .outside) (h : Leads stop (l.step c) cs l') :
    Leads stop l (c :: cs) l' := by
  refine ⟨?_, h⟩
  rintro rfl
  exact absurd rfl hquoting

theorem Leads.foldl_quoting (h : Leads stop l cs l') :
    cs.foldl Quoting.step l.quoting = l'.quoting := by
  induction cs generalizing l with
  | nil => exact congrArg quoting h
  | cons c cs ih => exact ih h.2

end Level

/-! ## The grammar -/

theorem quote_cases {quote : Char} (hquote : isQuote quote = true) :
    quote = '"' ∨ quote = '\'' ∨ quote = '\x60' := by
  simpa [isQuote, or_assoc] using hquote

/-- A kind of brackets. -/
inductive Bracket
  | round
  | square
  | curly

namespace Bracket

/-- The character that opens a bracket. -/
def opening : Bracket → Char
  | round => '('
  | square => '['
  | curly => '\x7b'

/-- The character that closes a bracket. -/
def closing : Bracket → Char
  | round => ')'
  | square => ']'
  | curly => '\x7d'

end Bracket

/-- A text is balanced: it consists of quoted texts, of brackets around balanced texts, and of
characters that are neither quotes nor brackets. Commas may stand in the brackets, and outside of
them if `commas` says so. -/
inductive Balanced : (commas : Bool) → List Char → Prop
  | nil {commas : Bool} : Balanced commas []
  | char {commas : Bool} {c : Char} {cs : List Char} (hquote : isQuote c = false)
      (hopens : opensBracket c = false) (hcloses : closesBracket c = false)
      (hcomma : c = ',' → commas = true) (behind : Balanced commas cs) : Balanced commas (c :: cs)
  | quoted {commas : Bool} {cs : List Char} (quote : Char) (hquote : isQuote quote = true)
      (inside : List (Quoted quote)) (behind : Balanced commas cs) :
      Balanced commas (quote :: (inside.flatMap Quoted.text ++ quote :: cs))
  | group {commas : Bool} {inner cs : List Char} (kind : Bracket) (hinner : Balanced true inner)
      (behind : Balanced commas cs) :
      Balanced commas (kind.opening :: (inner ++ kind.closing :: cs))

namespace Balanced

variable {commas : Bool} {cs ds : List Char}

theorem append (h : Balanced commas cs) (h' : Balanced commas ds) : Balanced commas (cs ++ ds) := by
  induction h with
  | nil => exact h'
  | char hquote hopens hcloses hcomma _ ih => exact .char hquote hopens hcloses hcomma (ih h')
  | quoted quote hquote inside _ ih => simpa using Balanced.quoted quote hquote inside (ih h')
  | group kind hinner _ _ ih => simpa using Balanced.group kind hinner (ih h')

theorem withCommas (h : Balanced commas cs) : Balanced true cs := by
  induction h with
  | nil => exact .nil
  | char hquote hopens hcloses _ _ ih => exact .char hquote hopens hcloses (fun _ => rfl) ih
  | quoted quote hquote inside _ ih => exact .quoted quote hquote inside ih
  | group kind hinner _ _ ih => exact .group kind hinner ih

/-- Balanced texts with commas between them are balanced where commas may stand. -/
theorem intercalate {texts : List (List Char)} (h : ∀ cs ∈ texts, Balanced commas cs) :
    Balanced true ([','].intercalate texts) := by
  induction texts with
  | nil => exact .nil
  | cons cs texts ih =>
    obtain ⟨hfirst, hrest⟩ := List.forall_mem_cons.mp h
    cases texts with
    | nil => simpa using hfirst.withCommas
    | cons ds texts =>
      rw [List.intercalate_cons_cons]
      exact (hfirst.withCommas.append
        (.char (by decide) (by decide) (by decide) (fun _ => rfl) .nil)).append (ih hrest)

/-! ## Levels of a balanced text -/

/-- What stands in a quoted text leads out of it. -/
theorem leads_quoted {stop quote : Char} {depth : Nat} (hquote : isQuote quote = true)
    (inside : List (Quoted quote)) :
    Level.Leads stop ⟨.inside quote, depth⟩ (inside.flatMap Quoted.text ++ [quote])
      ⟨.outside, depth⟩ := by
  have hslash : quote ≠ '\\' := by
    rintro rfl
    cases hquote
  induction inside with
  | nil =>
    refine .cons_quoted Quoting.noConfusion ?_
    simp [Level.step, Quoting.step, hslash, Level.Leads]
  | cons x inside ih =>
    cases x with
    | plain c h =>
      have hstep : Level.step ⟨.inside quote, depth⟩ c = ⟨.inside quote, depth⟩ := by
        simp [Level.step, Quoting.step, h.1, h.2]
      refine .cons_quoted Quoting.noConfusion ?_
      rw [hstep]
      exact ih
    | escaped c =>
      have hstep : Level.step ⟨.inside quote, depth⟩ '\\' = ⟨.escaped quote, depth⟩ := rfl
      refine .cons_quoted Quoting.noConfusion ?_
      rw [hstep]
      exact .cons_quoted Quoting.noConfusion ih

/-- **A balanced text leads back to where it began.** At the top of it there is no bracket that
closes nothing, and no comma where none may stand. -/
theorem leads (h : Balanced commas cs) (stop : Char) (depth : Nat)
    (hstop : depth = 0 → closesBracket stop = true ∨ stop = ',' ∧ commas = false) :
    Level.Leads stop ⟨.outside, depth⟩ cs ⟨.outside, depth⟩ := by
  have hdepth : ∀ {depth}, (⟨.outside, depth⟩ : Level) = .top → depth = 0 := congrArg Level.depth
  induction h generalizing depth with
  | nil => rfl
  | @char commas c cs hquote hopens hcloses hcomma _ ih =>
    have hstep : Level.step ⟨.outside, depth⟩ c = ⟨.outside, depth⟩ := by
      simp [Level.step, Quoting.step, depthBehind, hquote, hopens, hcloses]
    refine ⟨?_, ?_⟩
    · rintro htop rfl
      rcases hstop (hdepth htop) with hclosing | ⟨hstop, hnone⟩
      · rw [hclosing] at hcloses
        cases hcloses
      · rw [hcomma hstop] at hnone
        cases hnone
    · rw [hstep]
      exact ih depth hstop
  | quoted quote hquote inside _ ih =>
    have hstep : Level.step ⟨.outside, depth⟩ quote = ⟨.inside quote, depth⟩ := by
      rcases quote_cases hquote with rfl | rfl | rfl <;> rfl
    refine ⟨?_, ?_⟩
    · rintro htop rfl
      rcases hstop (hdepth htop) with hclosing | ⟨rfl, -⟩
      · rcases quote_cases hquote with rfl | rfl | rfl <;> cases hclosing
      · cases hquote
    · rw [hstep, ← List.singleton_append, ← List.append_assoc]
      exact (leads_quoted hquote inside).append (ih depth hstop)
  | group kind _ _ ihinner ih =>
    have hopen : Level.step ⟨.outside, depth⟩ kind.opening = ⟨.outside, depth + 1⟩ := by
      cases kind <;> rfl
    have hclose : Level.step ⟨.outside, depth + 1⟩ kind.closing = ⟨.outside, depth⟩ := by
      cases kind <;> rfl
    refine ⟨?_, ?_⟩
    · rintro htop rfl
      rcases hstop (hdepth htop) with hclosing | ⟨hcomma, -⟩
      · cases kind <;> cases hclosing
      · cases kind <;> cases hcomma
    · rw [hopen]
      -- nothing between the brackets stands at the top, and the closing one does not either
      have hinside : depth + 1 ≠ 0 := Nat.succ_ne_zero depth
      refine (ihinner (depth + 1) (absurd · hinside)).append
        ⟨fun htop => absurd (hdepth htop) hinside, ?_⟩
      rw [hclose]
      exact ih depth hstop

end Balanced

end Stencil.Template
