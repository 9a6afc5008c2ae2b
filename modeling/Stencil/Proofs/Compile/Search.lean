import Stencil.Proofs.Compile.Job

/-! # The search for include cycles

A compilation goes through the directives of a text in their order, and through the files that they
name in the same way.  All cycles that such a walk meets are listed here, read off the templates
alone: the first of them is the one that a compilation has to report, and there is none if and only
if all chains of includes come to an end without going back into the chain that led to the text.
-/
namespace Stencil
open Relation (ReflTransGen TransGen)

namespace Dialect

variable (d : Dialect) (read : String → Except ReadError String)

/-- The cycles that a directive in the last file of a chain leads to, if `search` finds those of a
text that goes on with the chain. -/
def cyclesAt (chain : List String) (file : String)
    (search : (path content : String) → List (List String)) (i : Template.Inclusion) :
    List (List String) :=
  match d.target i.arguments file with
  | .error _ => []
  | .ok target =>
    match chain.dropWhile (· != target) with
    | [] =>
      match read target with
      | .ok content => search target content
      | .error _ => []
    | cycle => [cycle ++ [target]]

/-- The cycles that one meets on the way through the directives of a text, which is included through
the files of `chain`, if no chain may grow by more than `depth` files. A longer one counts as a
cycle, although it is none. -/
def cycles : (depth : Nat) → (chain : List String) → (path content : String) → List (List String)
  | 0, chain, path, _ => [chain ++ [path]]
  | depth + 1, chain, path, content =>
    (d.tree content).inclusions.flatMap
      (d.cyclesAt read (chain ++ [path]) path (cycles depth (chain ++ [path])))

variable {d read}

theorem mem_targets_iff {path content q : String} :
    q ∈ d.targets path content ↔
      ∃ i ∈ (d.tree content).inclusions, d.target i.arguments path = .ok q := by
  unfold targets
  rw [List.mem_filterMap]
  refine exists_congr fun i => and_congr_right fun _ => ?_
  cases d.target i.arguments path <;> simp [Except.toOption]

/-- A directive leads to no cycle, or back into the chain, or on to a readable file. -/
theorem cyclesAt_cases (d : Dialect) (read : String → Except ReadError String)
    (chain : List String) (file : String) (i : Template.Inclusion) :
    (∀ search, d.cyclesAt read chain file search i = []) ∨
    ∃ target, d.target i.arguments file = .ok target ∧
      ((∃ before after, chain = before ++ target :: after ∧
        ∀ search, d.cyclesAt read chain file search i = [target :: after ++ [target]]) ∨
      ∃ content, target ∉ chain ∧ read target = .ok content ∧
        ∀ search, d.cyclesAt read chain file search i = search target content) := by
  unfold cyclesAt
  cases htarget : d.target i.arguments file with
  | error reason => exact .inl fun _ => rfl
  | ok target =>
    cases hdrop : chain.dropWhile (· != target) with
    | nil =>
      cases hread : read target with
      | error fault => exact .inl fun _ => by simp [hdrop, hread]
      | ok content =>
        refine .inr ⟨target, rfl, .inr ⟨content, fun hmem => ?_, hread, fun _ => ?_⟩⟩
        · have := List.dropWhile_eq_nil_iff.mp hdrop target hmem
          simp at this
        · simp [hdrop, hread]
    | cons p after =>
      obtain ⟨before, hbefore⟩ := List.dropWhile_suffix (· != target) (l := chain)
      have hp := List.head_dropWhile_not (· != target) (by rw [hdrop]; exact List.cons_ne_nil _ _)
      obtain rfl : p = target := by simpa [hdrop] using hp
      refine .inr ⟨p, rfl, .inl ⟨before, after, by rw [← hbefore, hdrop], fun _ => ?_⟩⟩
      simp [hdrop]

/-! ## Texts without cycles -/

/-- The files that the directives of a text name, directly or through other files, are not met. -/
def Avoids (d : Dialect) (read : String → Except ReadError String) (path content : String)
    (met : List String) : Prop :=
  ∀ q ∈ d.targets path content, ∀ r, ReflTransGen (d.Includes read) q r → r ∉ met

/-- A walk that meets no cycle has come to the end of all chains, and never back to where it came
from. -/
theorem settles_of_cycles_eq_nil {depth : Nat} {chain : List String} {path content : String}
    (h : d.cycles read depth chain path content = []) :
    d.Settles read depth path content ∧ d.Avoids read path content (chain ++ [path]) := by
  induction depth generalizing chain path content with
  | zero => exact absurd h (List.cons_ne_nil _ _)
  | succ depth ih =>
    rw [cycles, List.flatMap_eq_nil_iff] at h
    have hstep : ∀ q ∈ d.targets path content, q ∉ chain ++ [path] ∧ ∀ inner,
        read q = .ok inner → d.cycles read depth (chain ++ [path]) q inner = [] := by
      intro q hq
      obtain ⟨i, hi, htarget⟩ := mem_targets_iff.mp hq
      have hnone := h i hi
      unfold cyclesAt at hnone
      rw [htarget] at hnone
      simp only at hnone
      split at hnone
      · rename_i hdrop
        refine ⟨fun hmem => ?_, fun inner hinner => by simpa [hinner] using hnone⟩
        have := List.dropWhile_eq_nil_iff.mp hdrop q hmem
        simp at this
      · exact absurd hnone (List.cons_ne_nil _ _)
    refine ⟨fun q hq inner hinner => (ih ((hstep q hq).2 inner hinner)).1, fun q hq r hr => ?_⟩
    rcases ReflTransGen.cases_head hr with rfl | ⟨next, ⟨inner, hinner, hnext⟩, hr⟩
    · exact (hstep q hq).1
    · intro hmem
      exact (ih ((hstep q hq).2 inner hinner)).2 next hnext r hr (List.mem_append_left _ hmem)

/-- The converse: where all chains come to an end without going back, there is no cycle to meet. -/
theorem cycles_eq_nil {bound depth : Nat} {chain : List String} {path content : String}
    (hread : read path = .ok content) (h : d.Settles read bound path content) (hle : bound ≤ depth)
    (havoids : d.Avoids read path content chain) :
    d.cycles read depth chain path content = [] := by
  induction bound generalizing depth chain path content with
  | zero => exact h.elim
  | succ bound ih =>
    obtain _ | depth := depth
    · exact absurd hle (Nat.not_succ_le_zero bound)
    have hloops := not_transGen_of_acc (h.acc hread)
    rw [cycles, List.flatMap_eq_nil_iff]
    intro i hi
    rcases cyclesAt_cases d read (chain ++ [path]) path i with hnone | ⟨q, htarget, hq⟩
    · exact hnone _
    · have hmem : q ∈ d.targets path content := mem_targets_iff.mpr ⟨i, hi, htarget⟩
      have hincludes : d.Includes read path q := ⟨content, hread, hmem⟩
      rcases hq with ⟨before, after, hchain, -⟩ | ⟨inner, -, hinner, hsearch⟩
      · -- going back into the chain is excluded, and going back to the file itself is a loop
        have hback : q ∈ chain ++ [path] := by simp [hchain]
        rcases List.mem_append.mp hback with hback | hback
        · exact absurd hback (havoids q hmem q .refl)
        · obtain rfl := List.mem_singleton.mp hback
          exact absurd (.single hincludes) hloops
      · rw [hsearch]
        refine ih hinner (h q hmem inner hinner) (Nat.le_of_succ_le_succ hle) ?_
        intro r hr s hs hmem'
        have hreach : ReflTransGen (d.Includes read) q s := .head ⟨inner, hinner, hr⟩ hs
        rcases List.mem_append.mp hmem' with hmem' | hmem'
        · exact havoids q hmem s hreach hmem'
        · obtain rfl := List.mem_singleton.mp hmem'
          exact hloops (.head' hincludes hreach)

end Dialect

/-! ## Chains of limited length -/

namespace Terms

variable {T : Terms} {chain : List String} {path content : String}

/-- The last file of a chain may ask for what its directives name, if that is new. -/
theorem mayAsk_target (hasks : ∀ q ∈ T.dialect.targets path content, T.asks path q)
    {i : Template.Inclusion} (hi : i ∈ (T.dialect.tree content).inclusions) {q : String}
    (htarget : T.dialect.target i.arguments path = .ok q) (hnew : q ∉ chain ++ [path]) :
    T.MayAsk (chain ++ [path]) q := by
  refine ⟨hnew, Dialect.normalize_of_target htarget, fun last hlast => ?_⟩
  rw [List.getLast?_append] at hlast
  obtain rfl : path = last := by simpa using hlast
  exact hasks q (Dialect.mem_targets_iff.mpr ⟨i, hi, htarget⟩)

/-- A linked chain has not yet used up a bound that all files together keep to. -/
theorem Linked.exists_depth (h : T.Linked (chain ++ [path])) {depth : Nat}
    (hdepth : T.files.size + 1 ≤ chain.length + depth) : ∃ less, depth = less + 1 := by
  have hlength := h.length_le
  rw [List.length_append, List.length_singleton] at hlength
  exact Nat.exists_eq_succ_of_ne_zero (by omega)

/-- So a larger bound on the length of chains makes no difference. -/
theorem Linked.cycles_eq (hT : T.Closed) {depth depth' : Nat} (h : T.Linked (chain ++ [path]))
    (hasks : ∀ q ∈ T.dialect.targets path content, T.asks path q)
    (hdepth : T.files.size + 1 ≤ chain.length + depth)
    (hdepth' : T.files.size + 1 ≤ chain.length + depth') :
    T.dialect.cycles T.files.read depth chain path content =
      T.dialect.cycles T.files.read depth' chain path content := by
  induction depth generalizing depth' chain path content with
  | zero =>
    obtain ⟨_, hless⟩ := h.exists_depth hdepth
    cases hless
  | succ depth ih =>
    obtain ⟨depth', rfl⟩ := h.exists_depth hdepth'
    rw [Dialect.cycles, Dialect.cycles]
    refine List.flatMap_congr fun i hi => ?_
    rcases Dialect.cyclesAt_cases T.dialect T.files.read (chain ++ [path]) path i with
      hnone | ⟨q, htarget, ⟨before, after, -, hback⟩ | ⟨inner, hnew, hinner, hsearch⟩⟩
    · rw [hnone, hnone]
    · rw [hback, hback]
    · rw [hsearch, hsearch]
      have hlength : (chain ++ [path]).length = chain.length + 1 := by simp
      have hsnoc := h.snoc (mayAsk_target hasks hi htarget hnew) hinner
      exact ih hsnoc (hT.asks_of_read hinner) (by omega) (by omega)

end Terms

/-- A chain of files that leads from the first of them back to it, each including the next. -/
structure Dialect.Closed (d : Dialect) (read : String → Except ReadError String)
    (cycle : List String) : Prop where
  two_le : 2 ≤ cycle.length
  back : cycle.head? = cycle.getLast?
  includes : cycle.IsChain (d.Includes read)

/-- All cycles that are met on the way from a file are closed. -/
theorem Dialect.closed_of_mem_cycles {d : Dialect} {files : Files} {depth : Nat}
    {chain : List String} {path content : String} (hread : files.read path = .ok content)
    (h : (Terms.strict d files).Linked (chain ++ [path]))
    (hdepth : files.size + 1 ≤ chain.length + depth) :
    ∀ c ∈ d.cycles files.read depth chain path content, d.Closed files.read c := by
  induction depth generalizing chain path content with
  | zero =>
    obtain ⟨_, hless⟩ := h.exists_depth hdepth
    cases hless
  | succ depth ih =>
    intro c hc
    obtain ⟨i, hi, hc⟩ := List.mem_flatMap.mp hc
    have hasks : ∀ q ∈ d.targets path content, d.Includes files.read path q :=
      fun q hq => ⟨content, hread, hq⟩
    rcases cyclesAt_cases d files.read (chain ++ [path]) path i with
      hnone | ⟨q, htarget, ⟨before, after, hchain, hcycle⟩ | ⟨inner, hnew, hinner, hsearch⟩⟩
    · rw [hnone] at hc
      cases hc
    · rw [hcycle] at hc
      obtain rfl := List.mem_singleton.mp hc
      -- the end of the chain from the file on, and the step back to it
      have hend : (q :: after).IsChain (d.Includes files.read) :=
        List.IsChain.suffix h.asks (hchain ▸ List.suffix_append before (q :: after))
      have hlast : path ∈ (q :: after).getLast? := by
        have := congrArg List.getLast? hchain
        rw [List.getLast?_append, List.getLast?_append] at this
        simpa [List.getLast?_eq_some_getLast] using this.symm
      have hback : (q :: after ++ [q]).getLast? = some q := List.getLast?_concat
      refine ⟨by simp, hback.symm, List.isChain_append.mpr ⟨hend, .singleton q, ?_⟩⟩
      intro p hp r hr
      obtain rfl : q = r := Option.some.inj hr
      obtain rfl : path = p := Option.some.inj (hlast.symm.trans hp)
      exact hasks q (mem_targets_iff.mpr ⟨i, hi, htarget⟩)
    · rw [hsearch] at hc
      have hmay : (Terms.strict d files).MayAsk (chain ++ [path]) q :=
        Terms.mayAsk_target (T := .strict d files) hasks hi htarget hnew
      refine ih hinner (h.snoc hmay hinner) ?_ c hc
      rw [List.length_append, List.length_singleton]
      omega

end Stencil
