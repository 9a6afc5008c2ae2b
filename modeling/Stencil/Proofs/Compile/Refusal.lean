import Stencil.Proofs.Compile.Search
import Stencil.Proofs.Compile.World

/-! # Which error a compilation ends with

What a job ensures does not say which of the cycles of a text is reported.  It is the first one of
the search: a document from the cache takes the place of a part of the search that meets none, and
all other parts are carried out in their order.
-/
namespace Stencil
open Relation (ReflTransGen TransGen)

/-- The error of a compilation that has failed. -/
def failure? {α : Type} : Except CompileError α → Option CompileError
  | .ok _ => none
  | .error reason => some reason

theorem eq_error_of_failure? {α : Type} {result : Except CompileError α} {reason : CompileError}
    (h : failure? result = some reason) : result = .error reason := by
  cases result with
  | ok a => cases h
  | error reason' => exact congrArg Except.error (Option.some.inj h)

/-- A compilation reports the first of some cycles, and does not fail if there is none. -/
def Reports {α : Type} (cycles : List (List String)) (result : Except CompileError α) : Prop :=
  failure? result = cycles.head?.map .cycle

/-- A reported cycle is the first one, and nothing else is reported. -/
theorem Reports.cases {α : Type} {cycles : List (List String)} {result : Except CompileError α}
    (h : Reports cycles result) :
    (cycles = [] ∧ ∃ a, result = .ok a) ∨
      ∃ cycle rest, cycles = cycle :: rest ∧ result = .error (.cycle cycle) := by
  cases cycles with
  | nil =>
    match result, h with
    | .ok a, _ => exact .inl ⟨rfl, a, rfl⟩
  | cons cycle rest =>
    exact .inr ⟨cycle, rest, rfl, eq_error_of_failure? h⟩

/-- What a directive becomes reports the same as the answer for the file that it names. -/
theorem Reports.insertion {cycles : List (List String)} {outcome : Outcome}
    (h : Reports cycles outcome) (directive : Origin) :
    Reports cycles (insertion directive outcome) := by
  rcases h.cases with ⟨rfl, document, rfl⟩ | ⟨cycle, rest, rfl, rfl⟩ <;> rfl

/-- Why there is no document of a file that the last file of a chain asks for. Chains have at most
`bound` files. -/
def Dialect.refusal (d : Dialect) (files : Files) (bound : Nat) (chain : List String)
    (path : String) : Option CompileError :=
  match files.read path with
  | .ok content =>
    (d.cycles files.read (bound - chain.length) chain path content).head?.map .cycle
  | .error fault =>
    match chain with
    | [] => some (.template path fault.message)
    | _ :: _ => some (.inclusion (.ofReadError path fault))

namespace Terms

variable {T : Terms} {bound : Nat}

/-- A job that is carried out for the last file of a chain ends with a result that meets a
condition, if all that it asks for is refused as it has to be. What it is asked for in turn it
refuses in the same way. -/
inductive Decides (T : Terms) (bound : Nat) :
    {α : Type} → Job α → (chain : List String) → (post : α → Prop) → Prop
  | done {α : Type} {a : α} {chain : List String} {post : α → Prop} (h : post a) :
    Decides T bound (.done a) chain post
  | read {α : Type} {path : String} {next : Except ReadError String → Job α}
    {chain : List String} {post : α → Prop}
    (h : Decides T bound (next (T.files.read path)) chain post) :
    Decides T bound (.read path next) chain post
  | number {α : Type} {next : Nat → Job α} {chain : List String} {post : α → Prop}
    (h : ∀ n, Decides T bound (next n) chain post) : Decides T bound (.number next) chain post
  | obtain {α : Type} {path : String} {asked : List String} {compile : Job Outcome}
    {next : Outcome → Job α} {chain : List String} {post : α → Prop} (hlinked : T.Linked chain)
    (hcompile : Decides T bound compile (chain ++ [path])
      fun outcome => failure? outcome = T.dialect.refusal T.files bound chain path)
    (hnext : ∀ outcome, failure? outcome = T.dialect.refusal T.files bound chain path →
      Decides T bound (next outcome) chain post) :
    Decides T bound (.obtain path asked compile next) chain post

theorem Decides.mono {α : Type} {m : Job α} {chain : List String} {post post' : α → Prop}
    (h : T.Decides bound m chain post) (hpost : ∀ a, post a → post' a) :
    T.Decides bound m chain post' := by
  induction m with
  | done a =>
    cases h with
    | done h => exact .done (hpost a h)
  | read path next ih =>
    cases h with
    | read h => exact .read (ih _ h hpost)
  | number next ih =>
    cases h with
    | number h => exact .number fun n => ih n (h n) hpost
  | obtain path asked compile next _ ih =>
    cases h with
    | obtain hlinked hcompile hnext =>
      exact .obtain hlinked hcompile fun outcome hrefused =>
        ih outcome (hnext outcome hrefused) hpost

theorem Decides.bind {α β : Type} {m : Job α} {f : α → Job β} {chain : List String}
    {post : β → Prop} (h : T.Decides bound m chain fun a => T.Decides bound (f a) chain post) :
    T.Decides bound (m.bind f) chain post := by
  induction m with
  | done a =>
    cases h with
    | done h => exact h
  | read path next ih =>
    cases h with
    | read h => exact .read (ih _ h)
  | number next ih =>
    cases h with
    | number h => exact .number fun n => ih n (h n)
  | obtain path asked compile next _ ih =>
    cases h with
    | obtain hlinked hcompile hnext =>
      exact .obtain hlinked hcompile fun outcome hrefused => ih outcome (hnext outcome hrefused)

/-! ## Pieces -/

/-- Of two actions one after the other, the second one reports its cycles if the first one has
none. -/
theorem Decides.bindCompiling {β γ : Type} {m : Compiling β} {f : β → Compiling γ}
    {chain : List String} {cycles cycles' : List (List String)}
    (h : T.Decides bound m.run chain (Reports cycles))
    (h' : ∀ b, T.Decides bound (f b).run chain (Reports cycles')) :
    T.Decides bound (m >>= f).run chain (Reports (cycles ++ cycles')) := by
  rw [ExceptT.run_bind]
  refine Decides.bind (h.mono fun r hr => ?_)
  rcases hr.cases with ⟨rfl, b, rfl⟩ | ⟨cycle, rest, rfl, rfl⟩
  · exact h' b
  · exact .done rfl

theorem decides_mapM {α : Type} {xs : List α} {f : α → Compiling Chunk} {chain : List String}
    {cycles : α → List (List String)}
    (h : ∀ x ∈ xs, T.Decides bound (f x).run chain (Reports (cycles x))) :
    T.Decides bound (xs.mapM f).run chain (Reports (xs.flatMap cycles)) := by
  induction xs with
  | nil => exact .done rfl
  | cons x xs ih =>
    rw [List.mapM_cons, List.flatMap_cons]
    refine (h x List.mem_cons_self).bindCompiling fun c => ?_
    rw [← List.append_nil (xs.flatMap cycles)]
    exact (ih fun y hy => h y (List.mem_cons_of_mem x hy)).bindCompiling fun _ => .done rfl

section

variable {path : String} {insert : Template.Inclusion → Compiling Chunk} {chain : List String}
  {cycles : Template.Inclusion → List (List String)}

theorem decides_inclusion {i : Template.Inclusion}
    (h : T.Decides bound (insert i).run chain (Reports (cycles i))) :
    T.Decides bound (i.chunk path insert).run chain (Reports (cycles i)) := by
  rw [← List.append_nil (cycles i)]
  exact h.bindCompiling fun _ => .done rfl

theorem decides_part {part : Template.BlockPart}
    (h : ∀ i, part.inclusion? = some i →
      T.Decides bound (insert i).run chain (Reports (cycles i))) :
    T.Decides bound (part.chunk path insert).run chain
      (Reports (part.inclusion?.toList.flatMap cycles)) := by
  cases part with
  | script span => exact .done rfl
  | inclusion i =>
    have hcycles : (Template.BlockPart.inclusion i).inclusion?.toList.flatMap cycles = cycles i :=
      List.flatMap_singleton ..
    rw [hcycles]
    exact decides_inclusion (h i rfl)

theorem decides_node {n : Template.Node}
    (h : ∀ i ∈ n.inclusions, T.Decides bound (insert i).run chain (Reports (cycles i))) :
    T.Decides bound (n.chunk path insert).run chain (Reports (n.inclusions.flatMap cycles)) := by
  cases n with
  | text location value => exact .done rfl
  | inlineWrite location children => exact .done rfl
  | block location parts =>
    have hparts : ∀ part ∈ parts, T.Decides bound (part.chunk path insert).run chain
        (Reports (part.inclusion?.toList.flatMap cycles)) :=
      fun part hpart => decides_part fun i hi => h i (List.mem_filterMap.mpr ⟨part, hpart, hi⟩)
    have hcycles : (Template.Node.block location parts).inclusions.flatMap cycles =
        parts.flatMap (fun part => part.inclusion?.toList.flatMap cycles) ++ [] := by
      rw [List.append_nil, ← List.flatMap_assoc, ← List.filterMap_eq_flatMap_toList]
      rfl
    rw [hcycles]
    exact (decides_mapM hparts).bindCompiling fun _ => .done rfl
  | inclusion i =>
    have hcycles : (Template.Node.inclusion i).inclusions.flatMap cycles = cycles i :=
      List.flatMap_singleton ..
    rw [hcycles]
    exact decides_inclusion (h i List.mem_cons_self)

theorem decides_chunks {tree : Template.Tree}
    (h : ∀ i ∈ tree.inclusions, T.Decides bound (insert i).run chain (Reports (cycles i))) :
    T.Decides bound (tree.chunks path insert).run chain
      (Reports (tree.inclusions.flatMap cycles)) := by
  rw [Template.Tree.inclusions, List.flatMap_assoc]
  exact decides_mapM fun n hn => decides_node fun i hi => h i (List.mem_flatMap.mpr ⟨n, hn, hi⟩)

end

/-! ## Directives and files -/

/-- A directive reports the cycles that it leads to. -/
theorem decides_insert {chain : List String} {file : String} {depth : Nat}
    {compile : (path content : String) → Job Outcome} {i : Template.Inclusion}
    (hlinked : T.Linked chain) (hne : chain ≠ []) (hdepth : chain.length + depth = bound)
    (hcompile : ∀ q inner, T.dialect.target i.arguments file = .ok q → q ∉ chain →
      T.files.read q = .ok inner → T.Decides bound (compile q inner) (chain ++ [q])
        (Reports (T.dialect.cycles T.files.read depth chain q inner))) :
    T.Decides bound (insert T.dialect chain file compile i).run chain
      (Reports (T.dialect.cyclesAt T.files.read chain file
        (T.dialect.cycles T.files.read depth chain) i)) := by
  have hrest : bound - chain.length = depth := by omega
  unfold insert Dialect.cyclesAt
  cases htarget : T.dialect.target i.arguments file with
  | error reason => exact .done rfl
  | ok target =>
    simp only
    cases hdrop : chain.dropWhile (· != target) with
    | cons p after => exact .done rfl
    | nil =>
      have hnew : target ∉ chain := by
        intro hmem
        have := List.dropWhile_eq_nil_iff.mp hdrop target hmem
        simp at this
      cases hread : T.files.read target with
      | ok content =>
        have hrefusal : T.dialect.refusal T.files bound chain target =
            (T.dialect.cycles T.files.read depth chain target content).head?.map .cycle := by
          rw [Dialect.refusal, hread, hrest]
        refine .obtain hlinked (.read ?_) fun outcome hrefused => .done ?_
        · rw [hread, hrefusal]
          exact hcompile target content htarget hnew hread
        · rw [hrefusal] at hrefused
          exact Reports.insertion hrefused _
      | error fault =>
        have hrefusal : T.dialect.refusal T.files bound chain target =
            some (.inclusion (.ofReadError target fault)) := by
          obtain ⟨first, rest, rfl⟩ := List.exists_cons_of_ne_nil hne
          rw [Dialect.refusal, hread]
        refine .obtain hlinked (.read ?_) fun outcome hrefused => .done ?_
        · rw [hread, hrefusal]
          exact .done rfl
        · -- the file is left out, and the template goes on without it
          rw [hrefusal] at hrefused
          obtain rfl := eq_error_of_failure? hrefused
          rfl

/-- **A compiled text reports the first cycle that is met on the way through its directives.** -/
theorem decides_compileText (hT : T.Closed) {depth : Nat} {chain : List String}
    {path content : String} (hdepth : chain.length + depth = bound)
    (hlinked : T.Linked (chain ++ [path]))
    (hasks : ∀ q ∈ T.dialect.targets path content, T.asks path q) :
    T.Decides bound (compileText T.dialect depth chain path content) (chain ++ [path])
      (Reports (T.dialect.cycles T.files.read depth chain path content)) := by
  induction depth generalizing chain path content with
  | zero => exact .done rfl
  | succ depth ih =>
    have hlength : (chain ++ [path]).length + depth = bound := by
      rw [List.length_append, List.length_singleton]
      omega
    have hchunks : T.Decides bound ((T.dialect.tree content).chunks path (insert T.dialect
        (chain ++ [path]) path (compileText T.dialect depth (chain ++ [path])))).run
        (chain ++ [path])
        (Reports (T.dialect.cycles T.files.read (depth + 1) chain path content)) := by
      refine decides_chunks fun i hi => ?_
      refine decides_insert hlinked (by simp) hlength fun q inner htarget hnew hinner => ?_
      have hmay := mayAsk_target hasks hi htarget hnew
      exact ih hlength (hlinked.snoc hmay hinner) (hT.asks_of_read hinner)
    rw [compileText_succ]
    refine Decides.bind (hchunks.mono fun r hr => ?_)
    cases r with
    | error reason => exact .done hr
    | ok chunks => exact .number fun number => .done hr

/-- **A compiled file reports the first cycle that is met on the way from it**, or that it cannot be
read. -/
theorem decides_compileFile (hT : T.Closed) (path : String) :
    T.Decides bound (compileFile T.dialect bound path) []
      fun outcome => failure? outcome = T.dialect.refusal T.files bound [] path := by
  have hcompile : ∀ content, T.files.read path = .ok content →
      T.Decides bound (compileText T.dialect bound [] path content) ([] ++ [path])
        (Reports (T.dialect.cycles T.files.read bound [] path content)) := by
    intro content hread
    exact decides_compileText hT (Nat.zero_add bound) (T.linked_singleton path)
      (hT.asks_of_read hread)
  unfold compileFile
  generalize compileText T.dialect bound [] = compile at hcompile ⊢
  have hlinked : T.Linked [] := ⟨.nil, .nil, by simp, by simp⟩
  refine .obtain hlinked (.read ?_) fun outcome hrefused => .done hrefused
  unfold Dialect.refusal
  cases hread : T.files.read path with
  | error fault => exact .done rfl
  | ok content => exact hcompile content hread

end Terms

/-! ## What is kept in a cache -/

/-- A file does not lead to any of the files that have been met. -/
def Dialect.Shuns (d : Dialect) (read : String → Except ReadError String) (met : List String)
    (path : String) : Prop :=
  ∀ r, ReflTransGen (d.Includes read) path r → r ∉ met

/-- All files of which a world keeps documents shun the files that have been met. -/
def World.Shuns (w : World) (d : Dialect) (read : String → Except ReadError String)
    (met : List String) : Prop :=
  w.Keeps fun path _ => d.Shuns read met path

namespace Terms

variable {T : Terms} {bound : Nat} {chain met : List String} {path : String}

/-- A chain that leads to a file which shuns all that may ask beyond their directives is made of
includes, from each file on that comes again behind it. -/
theorem transGen_of_shuns (hmet : ∀ p q, p ∉ met → T.asks p q → T.dialect.Includes T.files.read p q)
    (hshuns : T.dialect.Shuns T.files.read met path) {first : String} {after : List String}
    (hchain : (first :: after ++ [path]).IsChain T.asks)
    (hback : ReflTransGen (T.dialect.Includes T.files.read) path first) :
    TransGen (T.dialect.Includes T.files.read) first path := by
  induction after generalizing first with
  | nil =>
    have hasks := (List.isChain_cons_cons.mp hchain).1
    exact .single (hmet first path (hshuns first hback) hasks)
  | cons next after ih =>
    obtain ⟨hasks, hrest⟩ := List.isChain_cons_cons.mp hchain
    have hstep := hmet first next (hshuns first hback) hasks
    exact .head hstep (ih hrest (hback.tail hstep))

/-- A file that is asked for may be added to a chain, if it can be read. -/
theorem Linked.extend (hlinked : T.Linked chain) (hmay : T.MayAsk chain path) {content : String}
    (hread : T.files.read path = .ok content) : T.Linked (chain ++ [path]) := by
  rcases List.eq_nil_or_concat chain with rfl | ⟨before, last, rfl⟩
  · exact T.linked_singleton path
  · rw [List.concat_eq_append] at hlinked hmay ⊢
    exact hlinked.snoc hmay hread

/-- No file is refused of which a document may be kept, if it shuns the files that have been met. -/
theorem refusal_of_compiles (hT : T.Closed)
    (hmet : ∀ p q, p ∉ met → T.asks p q → T.dialect.Includes T.files.read p q)
    (hbound : T.files.size + 1 ≤ bound) (hlinked : T.Linked chain) (hmay : T.MayAsk chain path)
    {document : Document} (hcompiles : T.dialect.Compiles T.files path document)
    (hshuns : T.dialect.Shuns T.files.read met path) :
    T.dialect.refusal T.files bound chain path = none := by
  obtain ⟨content, hread, hsettles, -⟩ := hcompiles
  have hnext := hlinked.extend hmay hread
  have havoids : T.dialect.Avoids T.files.read path content chain := by
    intro q hq r hr hmem
    obtain ⟨before, after, rfl⟩ := List.append_of_mem hmem
    have hreach : TransGen (T.dialect.Includes T.files.read) path r :=
      .head' ⟨content, hread, hq⟩ hr
    have hchain : (r :: after ++ [path]).IsChain T.asks := by
      refine List.IsChain.suffix hnext.asks ⟨before, ?_⟩
      rw [← List.append_assoc]
    have haround := transGen_of_shuns hmet hshuns hchain hreach.to_reflTransGen
    exact hsettles.not_loops hread ⟨path, .refl, hreach.trans haround⟩
  have hasks := hT.asks_of_read hread
  -- the bound that is left may be smaller than that of the includes, but it is not used up
  have hmore : T.dialect.cycles T.files.read (bound - chain.length) chain path content =
      T.dialect.cycles T.files.read bound chain path content :=
    hnext.cycles_eq hT hasks (by omega) (by omega)
  have hnone := Dialect.cycles_eq_nil hread hsettles hbound havoids
  simp [Dialect.refusal, hread, hmore, hnone]

/-- A larger bound on chains makes no difference to why a root is refused. -/
theorem refusal_root (hT : T.Closed) (hbound : T.files.size + 1 ≤ bound) (path : String) :
    T.dialect.refusal T.files bound [] path =
      T.dialect.refusal T.files (T.files.size + 1) [] path := by
  unfold Dialect.refusal
  cases hread : T.files.read path with
  | error fault => rfl
  | ok content =>
    have hlinked : T.Linked ([] ++ [path]) := T.linked_singleton path
    have hasks := hT.asks_of_read hread
    have hcycles : T.dialect.cycles T.files.read bound [] path content =
        T.dialect.cycles T.files.read (T.files.size + 1) [] path content :=
      hlinked.cycles_eq hT hasks (by simpa using hbound) (by simp)
    simp [hcycles]

/-- A readable root is refused for a cycle if it leads into one, and else for nothing. -/
theorem refusal_of_read {d : Dialect} {files : Files} {root content : String}
    (hread : files.read root = .ok content) :
    (d.refusal files (files.size + 1) [] root = none ∧ ¬ d.Loops files.read root) ∨
      ∃ cycle, d.refusal files (files.size + 1) [] root = some (.cycle cycle) ∧
        d.Loops files.read root ∧ d.Closed files.read cycle := by
  have hrefusal : d.refusal files (files.size + 1) [] root =
      (d.cycles files.read (files.size + 1) [] root content).head?.map .cycle := by
    simp [Dialect.refusal, hread]
  have hlinked : (Terms.strict d files).Linked ([] ++ [root]) := linked_singleton _ root
  have hclosed := Dialect.closed_of_mem_cycles hread hlinked (Nat.zero_add (files.size + 1)).ge
  cases hcycles : d.cycles files.read (files.size + 1) [] root content with
  | nil =>
    obtain ⟨hsettles, -⟩ := Dialect.settles_of_cycles_eq_nil hcycles
    exact .inl ⟨by rw [hrefusal, hcycles]; rfl, hsettles.not_loops hread⟩
  | cons cycle rest =>
    have hloops : d.Loops files.read root := by
      refine (Dialect.settles_or_loops hread).resolve_left fun hsettles => ?_
      have hnone : d.cycles files.read (files.size + 1) [] root content = [] :=
        Dialect.cycles_eq_nil hread hsettles (Nat.le_refl _) fun _ _ _ _ => List.not_mem_nil
      rw [hcycles] at hnone
      cases hnone
    refine .inr ⟨cycle, by rw [hrefusal, hcycles]; rfl, hloops, hclosed cycle ?_⟩
    rw [hcycles]
    exact List.mem_cons_self

/-- A file that is not refused shuns all files of the chain. -/
theorem shuns_of_refusal (hmay : T.MayAsk chain path) (hmet : met ⊆ chain)
    (hnone : T.dialect.refusal T.files bound chain path = none) :
    T.dialect.Shuns T.files.read met path := by
  intro r hr hmem
  unfold Dialect.refusal at hnone
  cases hread : T.files.read path with
  | error fault =>
    rw [hread] at hnone
    cases chain <;> cases hnone
  | ok content =>
    simp only [hread, Option.map_eq_none_iff, List.head?_eq_none_iff] at hnone
    obtain ⟨-, havoids⟩ := Dialect.settles_of_cycles_eq_nil hnone
    rcases ReflTransGen.cases_head hr with rfl | ⟨next, ⟨content', hread', hnext⟩, hr⟩
    · exact hmay.new (hmet hmem)
    · obtain rfl : content = content' := Except.ok.inj (hread.symm.trans hread')
      exact havoids next hnext r hr (List.mem_append_left _ (hmet hmem))

end Terms

/-- **Carried out alone, a job ends with the error that it decides on**, if the cache keeps nothing
that leads to a file which may ask beyond its directives. -/
theorem Job.run_decides {T : Terms} (hT : T.Closed) {bound : Nat}
    (hbound : T.files.size + 1 ≤ bound) {met : List String}
    (hmet : ∀ p q, p ∉ met → T.asks p q → T.dialect.Includes T.files.read p q)
    {owner : Nat} {α : Type} {m : Job α} {chain : List String} {now : Nat}
    {post : α → Nat → Prop} {post' : α → Prop} (h : T.Ensures m chain now post)
    (hdecides : T.Decides bound m chain post') {w : World} {claimed : List String}
    (hw : w.Serves T owner claimed) (hshuns : w.Shuns T.dialect T.files.read met)
    (hclaimed : claimed ⊆ chain) (hchain : met ⊆ chain) (hnow : now ≤ w.nextDocument) :
    (m.run owner w).2.Shuns T.dialect T.files.read met ∧ post' (m.run owner w).1 := by
  induction h generalizing w claimed with
  | done _ =>
    cases hdecides with
    | done hpost => exact ⟨hshuns, hpost⟩
  | @read α path next chain now post _ ih =>
    cases hdecides with
    | read hdecides =>
      rw [Job.run, hw.files]
      exact ih hdecides hw hshuns hclaimed hchain hnow
  | @number α next chain now post _ ih =>
    cases hdecides with
    | number hdecides =>
      rw [Job.run]
      exact ih w.nextDocument hnow (hdecides _) hw.newDocument hshuns hclaimed hchain
        (Nat.le_refl _)
  | @obtain α path asked compile next chain now post hasked hmay hensures _ ihcompile ihnext =>
    cases hdecides with
    | obtain hlinked hcompile hnext =>
      rw [Job.run, World.obtain]
      rcases hw.enter fun hmem => hmay.new (hclaimed hmem) with
        ⟨document, hslot, hkept, henter⟩ | henter
      · rw [henter]
        have hnone := Terms.refusal_of_compiles hT hmet hbound hlinked hmay hkept.compiles
          (hshuns path document hslot)
        exact ihnext (.ok document) w.nextDocument hnow ⟨hkept.compiles, hkept.apart hnow⟩
          (hnext (.ok document) hnone.symm) hw hshuns hclaimed hchain (Nat.le_refl _)
      · rw [henter]
        have hmore : claimed ++ [path] ⊆ chain ++ [path] :=
          List.append_subset.mpr ⟨fun p hp => List.mem_append_left _ (hclaimed hp),
            List.subset_append_right _ _⟩
        have hmet' : met ⊆ chain ++ [path] := fun p hp => List.mem_append_left _ (hchain hp)
        have hclaim := hw.claim path
        have hensured := hensures w.nextDocument hnow
        obtain ⟨hserves, hle, hanswer⟩ :=
          Job.run_ensures hensured hclaim hmore (Nat.le_refl w.nextDocument)
        obtain ⟨hkeeps, hrefused⟩ := ihcompile w.nextDocument hnow hcompile hclaim
          (hshuns.claim owner path) hmore hmet' (Nat.le_refl w.nextDocument)
        have hsettled := hkeeps.settle owner fun document houtcome _ =>
          Terms.shuns_of_refusal hmay hchain (hrefused.symm.trans (congrArg failure? houtcome))
        exact ihnext _ _ (Nat.le_trans hnow hle) (hanswer.mono hnow (Nat.le_refl _))
          (hnext _ hrefused) (hserves.settle hanswer) hsettled hclaimed hchain (Nat.le_refl _)

end Stencil
