import Mathlib.Data.List.Chain
import Mathlib.Data.List.Forall2
import Mathlib.Data.List.TakeWhile
import Stencil.Proofs.Compile.Nesting
import Stencil.Proofs.Program.Numbers

/-! # What jobs ensure

A job ensures something of its result, whoever carries it out, as long as it is answered correctly:
files are read as they are, numbers grow, and the answer to a question for a document is one that
the question's own job would give.  So the same property is asked of a job and relied on by it, and
the one who carries out jobs has to keep nothing in mind but this property of what is still to do.
-/
namespace Stencil
open Relation (ReflTransGen TransGen)
open Template (originAt)

namespace Job

theorem bind_done {α : Type} (m : Job α) : m.bind done = m := by
  induction m with
  | done a => rfl
  | read path next ih => exact congrArg (read path) (funext ih)
  | number next ih => exact congrArg number (funext ih)
  | obtain path chain compile next _ ih =>
    exact congrArg (Job.obtain path chain compile) (funext ih)

theorem bind_assoc {α β γ : Type} (m : Job α) (f : α → Job β) (g : β → Job γ) :
    (m.bind f).bind g = m.bind fun a => (f a).bind g := by
  induction m with
  | done a => rfl
  | read path next ih => exact congrArg (read path) (funext fun r => ih r f)
  | number next ih => exact congrArg number (funext fun n => ih n f)
  | obtain path chain compile next _ ih =>
    exact congrArg (Job.obtain path chain compile) (funext fun r => ih r f)

instance : LawfulMonad Job :=
  LawfulMonad.mk' Job bind_done (fun _ _ => rfl) bind_assoc

end Job

/-! ## Correct answers -/

/-- A document is the one that the file at a path has to be compiled to. -/
def Dialect.Compiles (d : Dialect) (files : Files) (path : String) (document : Document) : Prop :=
  ∃ content, files.read path = .ok content ∧
    d.Settles files.read (files.size + 1) path content ∧
    document.bare = d.document files.read (files.size + 1) path content

theorem Dialect.Compiles.bare_eq {d : Dialect} {files : Files} {path : String}
    {document document' : Document} (h : d.Compiles files path document)
    (h' : d.Compiles files path document') : document.bare = document'.bare := by
  obtain ⟨content, hread, -, hbare⟩ := h
  obtain ⟨content', hread', -, hbare'⟩ := h'
  obtain rfl : content = content' := Except.ok.inj (hread.symm.trans hread')
  rw [hbare, hbare']

/-- What answers are measured by: the files, which file may ask for which, and for which files it is
right to report a cycle. -/
structure Terms where
  dialect : Dialect
  files : Files
  asks : String → String → Prop
  loops : String → Prop

/-- The terms that go by the includes of the files. -/
def Terms.strict (d : Dialect) (files : Files) : Terms :=
  ⟨d, files, d.Includes files.read, d.Loops files.read⟩

/-- The terms under which any file may ask for any other and report a cycle. -/
def Terms.lax (d : Dialect) (files : Files) : Terms := ⟨d, files, fun _ _ => True, fun _ => True⟩

/-- Terms under which files may ask for what they include, and report the cycles that they lead
into. -/
structure Terms.Closed (T : Terms) : Prop where
  includes : ∀ p q, T.dialect.Includes T.files.read p q → T.asks p q
  around : ∀ p, TransGen T.asks p p → T.loops p
  toward : ∀ p q, T.asks p q → T.loops q → T.loops p

/-- A file may ask for what its directives name. -/
theorem Terms.Closed.asks_of_read {T : Terms} (hT : T.Closed) {path content : String}
    (hread : T.files.read path = .ok content) :
    ∀ q ∈ T.dialect.targets path content, T.asks path q :=
  fun q hq => hT.includes path q ⟨content, hread, hq⟩

theorem Terms.closed_strict (d : Dialect) (files : Files) : (Terms.strict d files).Closed where
  includes _ _ h := h
  around p h := ⟨p, .refl, h⟩
  toward _ _ h := fun ⟨r, hr, hcycle⟩ => ⟨r, .head h hr, hcycle⟩

theorem Terms.closed_lax (d : Dialect) (files : Files) : (Terms.lax d files).Closed where
  includes _ _ _ := trivial
  around _ _ := trivial
  toward _ _ _ _ := trivial

namespace Terms

variable (T : Terms)

/-- A correct answer to the last file of `chain`, which has asked for the document of a path at a
time `lo`, given at a time `hi`. Times are counted by the numbers that have been taken. -/
def Answer (chain : List String) (path : String) (lo : Nat) : Outcome → (hi : Nat) → Prop
  | .ok document, hi =>
    T.dialect.Compiles T.files path document ∧ Apart lo hi document.withIncluded
  | .error (.cycle _), _ => T.loops path
  | .error (.inclusion reason), _ =>
    chain ≠ [] ∧ ∃ fault, T.files.read path = .error fault ∧ reason = .ofReadError path fault
  | .error (.template _ _), _ => chain = [] ∧ ∃ fault, T.files.read path = .error fault

/-- The last file of a chain may ask for a path. -/
structure MayAsk (chain : List String) (path : String) : Prop where
  new : path ∉ chain
  normal : Path.normalize path = path
  asks : ∀ last ∈ chain.getLast?, T.asks last path

/-- A job that is carried out for the last file of a chain from a time on, and answered correctly,
asks only for what it may and ends with a result that meets a condition. -/
inductive Ensures : {α : Type} → Job α → (chain : List String) → (now : Nat) →
    (post : α → Nat → Prop) → Prop
  | done {α : Type} {a : α} {chain : List String} {now : Nat} {post : α → Nat → Prop}
    (h : ∀ later, now ≤ later → post a later) : Ensures (.done a) chain now post
  | read {α : Type} {path : String} {next : Except ReadError String → Job α}
    {chain : List String} {now : Nat} {post : α → Nat → Prop}
    (h : Ensures (next (T.files.read path)) chain now post) :
    Ensures (.read path next) chain now post
  | number {α : Type} {next : Nat → Job α} {chain : List String} {now : Nat}
    {post : α → Nat → Prop} (h : ∀ n, now ≤ n → Ensures (next n) chain (n + 1) post) :
    Ensures (.number next) chain now post
  | obtain {α : Type} {path : String} {asked : List String} {compile : Job Outcome}
    {next : Outcome → Job α} {chain : List String} {now : Nat} {post : α → Nat → Prop}
    (hasked : asked = chain ++ [path]) (hmay : T.MayAsk chain path)
    (hcompile : ∀ later, now ≤ later →
      Ensures compile (chain ++ [path]) later (T.Answer chain path later))
    (hnext : ∀ outcome later, now ≤ later → T.Answer chain path now outcome later →
      Ensures (next outcome) chain later post) :
    Ensures (.obtain path asked compile next) chain now post

variable {T}

theorem Answer.mono {chain : List String} {path : String} {lo lo' hi hi' : Nat}
    {outcome : Outcome} (h : T.Answer chain path lo outcome hi) (hlo : lo' ≤ lo) (hhi : hi ≤ hi') :
    T.Answer chain path lo' outcome hi' := by
  match outcome, h with
  | .ok document, ⟨hcompiles, hapart⟩ => exact ⟨hcompiles, hapart.mono hlo hhi⟩
  | .error (.cycle _), h => exact h
  | .error (.inclusion _), h => exact h
  | .error (.template _ _), h => exact h

theorem Ensures.mono {α : Type} {m : Job α} {chain : List String} {now later : Nat}
    {post post' : α → Nat → Prop} (h : T.Ensures m chain now post) (hle : now ≤ later)
    (hpost : ∀ a time, later ≤ time → post a time → post' a time) :
    T.Ensures m chain later post' := by
  induction m generalizing now later with
  | done a =>
    cases h with
    | done h => exact .done fun time htime => hpost a time htime (h time (Nat.le_trans hle htime))
  | read path next ih =>
    cases h with
    | read h => exact .read (ih _ h hle hpost)
  | number next ih =>
    cases h with
    | number h =>
      refine .number fun n hn => ih n (h n (Nat.le_trans hle hn)) (Nat.le_refl _) ?_
      exact fun a time htime => hpost a time (Nat.le_trans (Nat.le_succ_of_le hn) htime)
  | obtain path asked compile next _ ih =>
    cases h with
    | obtain hasked hmay hcompile hnext =>
      refine .obtain hasked hmay (fun time htime => hcompile time (Nat.le_trans hle htime)) ?_
      intro outcome time htime hanswer
      refine ih outcome (hnext outcome time (Nat.le_trans hle htime)
        (hanswer.mono hle (Nat.le_refl _))) (Nat.le_refl _) fun a time' htime' => ?_
      exact hpost a time' (Nat.le_trans htime htime')

theorem Ensures.bind {α β : Type} {m : Job α} {f : α → Job β} {chain : List String} {now : Nat}
    {post : β → Nat → Prop}
    (h : T.Ensures m chain now fun a later => T.Ensures (f a) chain later post) :
    T.Ensures (m.bind f) chain now post := by
  induction m generalizing now with
  | done a =>
    cases h with
    | done h => exact h now (Nat.le_refl _)
  | read path next ih =>
    cases h with
    | read h => exact .read (ih _ h)
  | number next ih =>
    cases h with
    | number h => exact .number fun n hn => ih n (h n hn)
  | obtain path asked compile next _ ih =>
    cases h with
    | obtain hasked hmay hcompile hnext =>
      exact .obtain hasked hmay hcompile fun outcome later hle hanswer =>
        ih outcome (hnext outcome later hle hanswer)

/-! ## Pieces -/

/-- A condition on a result or, if there is none, on the error. -/
def Yields {β : Type} (fails : CompileError → Prop) (post : β → Nat → Prop) :
    Except CompileError β → Nat → Prop
  | .ok b, later => post b later
  | .error e, _ => fails e

theorem Ensures.bindCompiling {β γ : Type} {m : Compiling β} {f : β → Compiling γ}
    {chain : List String} {now : Nat} {fails : CompileError → Prop} {post : γ → Nat → Prop}
    (h : T.Ensures m.run chain now
      (Yields fails fun b later => T.Ensures (f b).run chain later (Yields fails post))) :
    T.Ensures (m >>= f).run chain now (Yields fails post) := by
  rw [ExceptT.run_bind]
  refine Ensures.bind (h.mono (Nat.le_refl _) fun r later _ hr => ?_)
  cases r with
  | ok b => exact hr
  | error e => exact .done fun _ _ => hr

theorem map_bare_eq {α : Type} {xs : List α} {piece : α → Chunk} {cs : List Chunk}
    (h : List.Forall₂ (fun x c => c.bare = piece x) xs cs) : cs.map Chunk.bare = xs.map piece := by
  induction h with
  | nil => rfl
  | cons hhead _ ih => rw [List.map_cons, List.map_cons, hhead, ih]

/-- A list of actions that make pieces makes a list of them, with documents apart from each other if
those of each piece are. -/
theorem ensures_mapM {α : Type} {xs : List α} {f : α → Compiling Chunk} {R : α → Chunk → Prop}
    {fails : CompileError → Prop} {chain : List String} {now : Nat}
    (h : ∀ x ∈ xs, ∀ later, T.Ensures (f x).run chain later
      (Yields fails fun c time => R x c ∧ Apart later time c.documents)) :
    T.Ensures (xs.mapM f).run chain now (Yields fails fun cs later =>
      List.Forall₂ R xs cs ∧ Apart now later (documentsOfChunks cs)) := by
  induction xs generalizing now with
  | nil => exact .done fun later hle => ⟨.nil, .nil hle⟩
  | cons x xs ih =>
    rw [List.mapM_cons]
    refine Ensures.bindCompiling ((h x List.mem_cons_self now).mono (Nat.le_refl _) ?_)
    intro r mid _ hr
    cases r with
    | error e => exact hr
    | ok c =>
      have htail := @ih mid fun y hy => h y (List.mem_cons_of_mem x hy)
      refine Ensures.bindCompiling (htail.mono (Nat.le_refl _) ?_)
      intro r later _ hrest
      cases r with
      | error e => exact hrest
      | ok cs =>
        refine .done fun time htime => ?_
        exact ⟨.cons hr.1 hrest.1, hr.2.append (hrest.2.mono (Nat.le_refl _) htime)⟩

/-- What the directives of a file have to become. -/
def inserted (T : Terms) (path : String) : Template.Inclusion → Chunk :=
  T.dialect.inserted T.files.read path (T.dialect.document T.files.read (T.files.size + 1))

/-- The includes of the file that a directive names settle, if it can be read. -/
def Settled (T : Terms) (path : String) (i : Template.Inclusion) : Prop :=
  ∀ q inner, T.dialect.target i.arguments path = .ok q → T.files.read q = .ok inner →
    T.dialect.Settles T.files.read (T.files.size + 1) q inner

/-- The piece of a directive is made from what is inserted for it. -/
theorem ensures_inclusion {path : String} {insert : Template.Inclusion → Compiling Chunk}
    {fails : CompileError → Prop} {chain : List String} {now : Nat} {i : Template.Inclusion}
    (h : T.Ensures (insert i).run chain now (Yields fails fun c time =>
      (T.Settled path i ∧ c.bare = T.inserted path i) ∧ Apart now time c.documents)) :
    T.Ensures (i.chunk path insert).run chain now (Yields fails fun c time =>
      (T.Settled path i ∧ c.bare = .fragment (some (originAt path i.location.start))
        [T.inserted path i]) ∧ Apart now time c.documents) := by
  refine Ensures.bindCompiling (h.mono (Nat.le_refl _) fun r later _ hr => ?_)
  cases r with
  | error e => exact hr
  | ok c =>
    obtain ⟨⟨hsettled, hbare⟩, hapart⟩ := hr
    have hpiece : (Chunk.fragment (some (originAt path i.location.start)) [c]).bare =
        .fragment (some (originAt path i.location.start)) [T.inserted path i] := by
      rw [Chunk.bare, bareChunks, bareChunks, hbare]
    refine .done fun time htime => ⟨⟨hsettled, hpiece⟩, ?_⟩
    rw [Chunk.documents, documentsOfChunks, documentsOfChunks, List.append_nil]
    exact hapart.mono (Nat.le_refl _) htime

theorem ensures_part {path : String} {insert : Template.Inclusion → Compiling Chunk}
    {fails : CompileError → Prop} {chain : List String} {now : Nat} {part : Template.BlockPart}
    (h : ∀ i, part = .inclusion i → T.Ensures (insert i).run chain now (Yields fails fun c time =>
      (T.Settled path i ∧ c.bare = T.inserted path i) ∧ Apart now time c.documents)) :
    T.Ensures (part.chunk path insert).run chain now (Yields fails fun c time =>
      ((∀ i, part = .inclusion i → T.Settled path i) ∧
        c.bare = part.piece path (T.inserted path)) ∧ Apart now time c.documents) := by
  cases part with
  | script s => exact .done fun time htime => ⟨⟨fun i hi => (by cases hi), rfl⟩, .nil htime⟩
  | inclusion i =>
    refine (ensures_inclusion (h i rfl)).mono (Nat.le_refl _) fun r time _ hr => ?_
    cases r with
    | error e => exact hr
    | ok c =>
      obtain ⟨⟨hsettled, hbare⟩, hapart⟩ := hr
      refine ⟨⟨fun j hj => ?_, hbare⟩, hapart⟩
      obtain rfl : i = j := by injection hj
      exact hsettled

/-- The piece of a node is made from what is inserted for its directives. -/
theorem ensures_node {path : String} {insert : Template.Inclusion → Compiling Chunk}
    {fails : CompileError → Prop} {chain : List String} {now : Nat} {n : Template.Node}
    (h : ∀ i ∈ n.inclusions, ∀ later, T.Ensures (insert i).run chain later
      (Yields fails fun c time =>
        (T.Settled path i ∧ c.bare = T.inserted path i) ∧ Apart later time c.documents)) :
    T.Ensures (n.chunk path insert).run chain now (Yields fails fun c time =>
      ((∀ i ∈ n.inclusions, T.Settled path i) ∧ c.bare = n.piece path (T.inserted path)) ∧
        Apart now time c.documents) := by
  cases n with
  | text location value =>
    exact .done fun later hle => ⟨⟨fun i hi => (by cases hi), rfl⟩, .nil hle⟩
  | inlineWrite location children =>
    refine .done fun later hle => ?_
    have hbare : (children.map (Template.copied path)).map Chunk.bare =
        children.map (Template.copied path) := List.map_map.trans rfl
    have hnone : documentsOfChunks (children.map (Template.copied path)) = [] := by
      rw [List.eq_nil_iff_forall_not_mem]
      intro x hx
      obtain ⟨c, hc, hx⟩ := mem_documentsOfChunks.mp hx
      obtain ⟨s, -, rfl⟩ := List.mem_map.mp hc
      cases hx
    refine ⟨⟨fun i hi => (by cases hi), ?_⟩, ?_⟩
    · rw [Template.Node.piece_inlineWrite, Chunk.bare, bareChunks_eq_map, List.map_append,
        List.map_cons, hbare]
      rfl
    · rw [Chunk.documents, List.cons_append, documentsOfChunks, documentsOfChunks_append, hnone]
      exact .nil hle
  | block location parts =>
    have hparts : ∀ part ∈ parts, ∀ later, T.Ensures (part.chunk path insert).run chain later
        (Yields fails fun c time => ((∀ i, part = .inclusion i → T.Settled path i) ∧
          c.bare = part.piece path (T.inserted path)) ∧ Apart later time c.documents) :=
      fun part hpart later => ensures_part fun i hi =>
        h i (Template.mem_inclusions_block.mpr (hi ▸ hpart)) later
    refine Ensures.bindCompiling ((ensures_mapM hparts).mono (Nat.le_refl _) fun r later _ hr => ?_)
    cases r with
    | error e => exact hr
    | ok cs =>
      obtain ⟨hcs, hapart⟩ := hr
      obtain ⟨hsettled, hbare⟩ := (List.forall₂_and_left _ _).mp hcs
      refine .done fun time htime => ?_
      refine ⟨⟨fun i hi => hsettled _ (Template.mem_inclusions_block.mp hi) i rfl, ?_⟩, ?_⟩
      · rw [Template.Node.piece_block, Chunk.bare, bareChunks_eq_map, List.map_append,
          map_bare_eq hbare]
        rfl
      · rw [Chunk.documents, documentsOfChunks_append]
        exact (List.append_nil _).symm ▸ hapart.mono (Nat.le_refl _) htime
  | inclusion i =>
    refine (ensures_inclusion (h i List.mem_cons_self now)).mono (Nat.le_refl _)
      fun r time _ hr => ?_
    cases r with
    | error e => exact hr
    | ok c =>
      obtain ⟨⟨hsettled, hbare⟩, hapart⟩ := hr
      refine ⟨⟨fun j hj => ?_, hbare⟩, hapart⟩
      obtain rfl := List.mem_singleton.mp hj
      exact hsettled

/-! ## Directives -/

/-- A chain of files, each of which may ask for the next, in which none but the first has to be
readable. -/
structure Linked (T : Terms) (chain : List String) : Prop where
  nodup : chain.Nodup
  asks : chain.IsChain T.asks
  readable : ∀ p ∈ chain.tail, ∃ content, T.files.read p = .ok content
  normal : ∀ p ∈ chain.tail, Path.normalize p = p

theorem linked_singleton (T : Terms) (path : String) : T.Linked [path] :=
  ⟨by simp, .singleton path, by simp, by simp⟩

/-- A chain holds at most one file more than there are entries. -/
theorem Linked.length_le {chain : List String} (h : T.Linked chain) :
    chain.length ≤ T.files.size + 1 := by
  have := Files.length_le_size (h.nodup.sublist (List.tail_sublist chain)) h.readable h.normal
  rw [List.length_tail] at this
  omega

theorem Linked.snoc {chain : List String} {last path content : String}
    (h : T.Linked (chain ++ [last])) (hmay : T.MayAsk (chain ++ [last]) path)
    (hread : T.files.read path = .ok content) : T.Linked (chain ++ [last] ++ [path]) := by
  have htail : (chain ++ [last] ++ [path]).tail = (chain ++ [last]).tail ++ [path] :=
    List.tail_append_of_ne_nil (by simp)
  refine ⟨?_, ?_, ?_, ?_⟩
  · refine List.nodup_append.mpr ⟨h.nodup, by simp, ?_⟩
    rintro p hp q hq rfl
    exact hmay.new (List.mem_singleton.mp hq ▸ hp)
  · refine List.isChain_append.mpr ⟨h.asks, .singleton _, ?_⟩
    intro p hp q hq
    obtain rfl : path = q := Option.some.inj hq
    exact hmay.asks p hp
  · rw [htail]
    exact List.forall_mem_append.mpr ⟨h.readable, by simpa using ⟨content, hread⟩⟩
  · rw [htail]
    exact List.forall_mem_append.mpr ⟨h.normal, by simpa using hmay.normal⟩

/-- A file that asks for one in its own chain leads back to itself. -/
theorem Linked.around {chain : List String} {last target : String} (h : T.Linked (chain ++ [last]))
    (hmem : target ∈ chain ++ [last]) (hasks : T.asks last target) :
    TransGen T.asks last last := by
  obtain ⟨before, after, hsplit⟩ := List.append_of_mem hmem
  have hchain := h.asks
  rw [hsplit] at hchain
  have hlast : (target :: after).getLast (by simp) = last := by
    have := congrArg List.getLast? hsplit
    rw [List.getLast?_append, List.getLast?_append] at this
    simpa [List.getLast?_eq_some_getLast] using this.symm
  have hreach : ReflTransGen T.asks target last :=
    List.relationReflTransGen_of_exists_isChain_cons after
      (List.isChain_append.mp hchain).2.1 hlast
  exact .head' hasks hreach

/-- A file that asks for one in its own chain closes a cycle. -/
theorem Linked.loops {chain : List String} {last target : String} (hT : T.Closed)
    (h : T.Linked (chain ++ [last])) (hmem : target ∈ chain ++ [last])
    (hasks : T.asks last target) : T.loops last :=
  hT.around last (h.around hmem hasks)

/-- The errors that a file can end with whose text is known. -/
def Fails (T : Terms) (path : String) (e : CompileError) : Prop :=
  ∃ cycle, e = .cycle cycle ∧ T.loops path

/-- A directive asks for the file that it names, unless that closes a cycle. -/
theorem ensures_insert {chain : List String} {path : String}
    {compile : (path content : String) → Job Outcome} {i : Template.Inclusion} {now : Nat}
    (hT : T.Closed) (hlinked : T.Linked (chain ++ [path]))
    (hasks : ∀ q, T.dialect.target i.arguments path = .ok q → T.asks path q)
    (hcompile : ∀ q inner later, T.MayAsk (chain ++ [path]) q → T.files.read q = .ok inner →
      T.Ensures (compile q inner) (chain ++ [path] ++ [q]) later
        (T.Answer (chain ++ [path]) q later)) :
    T.Ensures (insert T.dialect (chain ++ [path]) path compile i).run (chain ++ [path]) now
      (Yields (T.Fails path) fun c time =>
        (T.Settled path i ∧ c.bare = T.inserted path i) ∧ Apart now time c.documents) := by
  unfold insert
  cases htarget : T.dialect.target i.arguments path with
  | error reason =>
    refine .done fun later hle => ⟨⟨fun q inner hq => ?_, ?_⟩, .nil hle⟩
    · rw [htarget] at hq
      cases hq
    · rw [inserted, Dialect.inserted, htarget]
      rfl
  | ok target =>
    simp only
    split
    · rename_i hdrop
      have hmay : T.MayAsk (chain ++ [path]) target := by
        refine ⟨fun hmem => ?_, ?_, fun last hlast => ?_⟩
        · have := List.dropWhile_eq_nil_iff.mp hdrop target hmem
          simp at this
        · exact Dialect.normalize_of_target htarget
        · rw [List.getLast?_append] at hlast
          obtain rfl : path = last := by simpa using hlast
          exact hasks target htarget
      refine .obtain rfl hmay (fun later _ => .read ?_) fun outcome later hle hanswer =>
        .done fun time htime => ?_
      · -- the file that is asked for
        cases hread : T.files.read target with
        | ok content => exact hcompile target content later hmay hread
        | error fault => exact .done fun _ _ => ⟨by simp, fault, hread, rfl⟩
      · -- what the directive becomes, now that it is answered
        match outcome, hanswer with
        | .ok document, ⟨⟨content, hread, hsettles, hbare⟩, hapart⟩ =>
          refine ⟨⟨fun q inner hq hinner => ?_, ?_⟩, hapart.mono (Nat.le_refl _) htime⟩
          · obtain rfl : target = q := Except.ok.inj (htarget.symm.trans hq)
            obtain rfl : content = inner := Except.ok.inj (hread.symm.trans hinner)
            exact hsettles
          · rw [inserted, Dialect.inserted, htarget]
            simp only [hread, Chunk.bare, hbare]
        | .error (.cycle cycle), hloops =>
          exact ⟨cycle, rfl, hT.toward path target (hasks target htarget) hloops⟩
        | .error (.inclusion reason), ⟨_, fault, hread, hreason⟩ =>
          refine ⟨⟨fun q inner hq hinner => ?_, ?_⟩, .nil (Nat.le_trans hle htime)⟩
          · obtain rfl : target = q := Except.ok.inj (htarget.symm.trans hq)
            rw [hread] at hinner
            cases hinner
          · rw [inserted, Dialect.inserted, htarget]
            simp only [hread, Chunk.bare, hreason]
        | .error (.template _ _), ⟨hnil, _⟩ => simp at hnil
    · rename_i hdrop
      refine .done fun later _ => ⟨_, rfl, hlinked.loops hT ?_ (hasks target htarget)⟩
      by_contra hmem
      refine hdrop (List.dropWhile_eq_nil_iff.mpr fun p hp => ?_)
      simpa using fun heq : p = target => hmem (heq ▸ hp)

/-! ## Files -/

/-- A compiled text is the document that it has to be. -/
def TextAnswer (T : Terms) (path content : String) (lo : Nat) : Outcome → Nat → Prop :=
  Yields (T.Fails path) fun document hi =>
    T.dialect.Settles T.files.read (T.files.size + 2) path content ∧
      document.bare = T.dialect.document T.files.read (T.files.size + 2) path content ∧
      Apart lo hi document.withIncluded

/-- Where the text is that of the file, it answers the question for the file. -/
theorem TextAnswer.answer {chain : List String} {path content : String} {lo hi : Nat}
    {outcome : Outcome} (hread : T.files.read path = .ok content)
    (h : T.TextAnswer path content lo outcome hi) : T.Answer chain path lo outcome hi := by
  match outcome, h with
  | .ok document, ⟨hsettles, hbare, hapart⟩ =>
    have hbound := (Dialect.settles_or_loops hread).resolve_right (hsettles.not_loops hread)
    exact ⟨⟨content, hread, hbound, by rw [hbare, Dialect.document_eq hbound (Nat.le_succ _)]⟩,
      hapart⟩
  | .error _, ⟨_, rfl, hloops⟩ => exact hloops

theorem compileText_succ (d : Dialect) (depth : Nat) (chain : List String)
    (path content : String) :
    compileText d (depth + 1) chain path content =
      Job.bind ((d.tree content).chunks path
        (insert d (chain ++ [path]) path (compileText d depth (chain ++ [path])))).run fun
        | .error reason => .done (.error reason)
        | .ok chunks => .number fun number =>
          .done (.ok
            (.mk ⟨number, path, contentHash content, (d.tree content).malformed⟩ chunks)) :=
  rfl

/-- **Compiling a text ensures that its document is the one that it has to be.** -/
theorem ensures_compileText (hT : T.Closed) {depth : Nat} {chain : List String}
    {path content : String} {now : Nat} (hdepth : T.files.size + 1 ≤ chain.length + depth)
    (hlinked : T.Linked (chain ++ [path]))
    (hasks : ∀ q ∈ T.dialect.targets path content, T.asks path q) :
    T.Ensures (compileText T.dialect depth chain path content) (chain ++ [path]) now
      (T.TextAnswer path content now) := by
  induction depth generalizing chain path content now with
  | zero =>
    -- the chain would hold more files than there are
    have := hlinked.length_le
    rw [List.length_append, List.length_singleton] at this
    omega
  | succ depth ih =>
    have hinsert : ∀ i ∈ (T.dialect.tree content).inclusions, ∀ later,
        T.Ensures (insert T.dialect (chain ++ [path]) path
          (compileText T.dialect depth (chain ++ [path])) i).run (chain ++ [path]) later
          (Yields (T.Fails path) fun c time =>
            (T.Settled path i ∧ c.bare = T.inserted path i) ∧ Apart later time c.documents) := by
      intro i hi later
      refine ensures_insert hT hlinked (fun q hq => hasks q ?_) fun q inner later hmay hinner => ?_
      · exact List.mem_filterMap.mpr ⟨i, hi, by rw [hq]; rfl⟩
      · refine (ih (by rw [List.length_append, List.length_singleton]; omega)
          (hlinked.snoc hmay hinner) (hT.asks_of_read hinner)).mono (Nat.le_refl _)
          fun outcome time _ h => h.answer hinner
    have hnodes : T.Ensures ((T.dialect.tree content).chunks path (insert T.dialect
        (chain ++ [path]) path (compileText T.dialect depth (chain ++ [path])))).run
        (chain ++ [path]) now (Yields (T.Fails path) fun cs later =>
          List.Forall₂ (fun n c => (∀ i ∈ n.inclusions, T.Settled path i) ∧
            c.bare = n.piece path (T.inserted path)) (T.dialect.tree content).nodes cs ∧
          Apart now later (documentsOfChunks cs)) :=
      ensures_mapM fun n hn later =>
        ensures_node fun i hi => hinsert i (List.mem_flatMap.mpr ⟨n, hn, hi⟩)
    rw [compileText_succ]
    refine Ensures.bind (Ensures.mono hnodes (Nat.le_refl _) fun r later _ hr => ?_)
    cases r with
    | error e => exact .done fun _ _ => hr
    | ok cs =>
      obtain ⟨hcs, hapart⟩ := hr
      obtain ⟨hsettled, hbare⟩ := (List.forall₂_and_left _ _).mp hcs
      -- the document gets its number last, after all those that it includes
      refine .number fun number hnumber => .done fun time htime => ?_
      refine ⟨fun q hq inner hinner => ?_, ?_, ?_⟩
      · obtain ⟨i, hi, hqi⟩ := List.mem_filterMap.mp hq
        obtain ⟨n, hn, hi⟩ := List.mem_flatMap.mp hi
        refine hsettled n hn i hi q inner ?_ hinner
        cases htarget : T.dialect.target i.arguments path with
        | error reason => simp [htarget, Except.toOption] at hqi
        | ok target => simpa [htarget, Except.toOption] using hqi
      · rw [Document.bare, bareChunks_eq_map, map_bare_eq hbare]
        rfl
      · refine Apart.mono ?_ (Nat.le_refl _) htime
        exact Apart.cons (d := .mk ⟨number, path, contentHash content,
          (T.dialect.tree content).malformed⟩ cs) (hapart.mono (Nat.le_refl _) hnumber)

/-- So does compiling a text that no file includes. -/
theorem ensures_compileText_root (hT : T.Closed) {depth : Nat} (hdepth : T.files.size + 1 ≤ depth)
    {path content : String} (hlinked : T.Linked [path]) (now : Nat)
    (hasks : ∀ q ∈ T.dialect.targets path content, T.asks path q) :
    T.Ensures (compileText T.dialect depth [] path content) [path] now
      (T.TextAnswer path content now) :=
  ensures_compileText hT (hdepth.trans_eq (Nat.zero_add depth).symm) hlinked hasks

/-- **Compiling a file ensures a correct answer to the question for it.** -/
theorem ensures_compileFile (hT : T.Closed) {depth : Nat} (hdepth : T.files.size + 1 ≤ depth)
    {path : String} (hnormal : Path.normalize path = path) (now : Nat) :
    T.Ensures (compileFile T.dialect depth path) [] now (T.Answer [] path now) := by
  have hcompile : ∀ content later, T.files.read path = .ok content →
      T.Ensures (compileText T.dialect depth [] path content) ([] ++ [path]) later
        (T.Answer [] path later) := by
    intro content later hread
    have htext := ensures_compileText_root hT hdepth (T.linked_singleton path) later
      (hT.asks_of_read hread)
    exact htext.mono (Nat.le_refl _) fun outcome time _ h => h.answer hread
  unfold compileFile
  generalize compileText T.dialect depth [] = compile at hcompile ⊢
  refine .obtain rfl ⟨by simp, hnormal, by simp⟩ (fun later _ => .read ?_) fun outcome later _ h =>
    .done fun time htime => h.mono (Nat.le_refl _) htime
  cases hread : T.files.read path with
  | error fault => exact .done fun _ _ => ⟨rfl, fault, hread⟩
  | ok content => exact hcompile content later hread

end Terms

end Stencil
