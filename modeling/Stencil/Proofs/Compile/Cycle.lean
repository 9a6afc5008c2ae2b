import Mathlib.Data.List.Duplicate
import Mathlib.Logic.Relation
import Stencil.Compile
import Stencil.Proofs.Files

/-! # Include cycles

A file includes another one if its text has a directive that names it.  From a file that leads into
no cycle all chains of includes are shorter than the number of entries in the file table allows;
from any other file there are chains of every length.
-/
namespace Stencil
open Relation (ReflTransGen TransGen)

namespace Template

/-- The directive of a part of a block. -/
def BlockPart.inclusion? : BlockPart → Option Inclusion
  | .script _ => none
  | .inclusion i => some i

/-- The directives of a node. -/
def Node.inclusions : Node → List Inclusion
  | .inclusion i => [i]
  | .block _ parts => parts.filterMap BlockPart.inclusion?
  | .text _ _ | .inlineWrite _ _ => []

/-- The directives of a template. -/
def Tree.inclusions (tree : Tree) : List Inclusion := tree.nodes.flatMap Node.inclusions

end Template

namespace Dialect

variable (d : Dialect) (read : String → Except ReadError String)

/-- The paths that the directives of a text name in a file. -/
def targets (path content : String) : List String :=
  (d.tree content).inclusions.filterMap fun i => (d.target i.arguments path).toOption

/-- A file has a directive that names another one. -/
def Includes (p q : String) : Prop :=
  ∃ content, read p = .ok content ∧ q ∈ d.targets p content

/-- A cycle of includes can be reached from a file. -/
def Loops (p : String) : Prop :=
  ∃ q, ReflTransGen (d.Includes read) p q ∧ TransGen (d.Includes read) q q

/-- All chains of readable files that the text of a file includes are shorter than a bound. -/
def Settles : (bound : Nat) → (path content : String) → Prop
  | 0, _, _ => False
  | bound + 1, path, content =>
    ∀ q ∈ d.targets path content, ∀ inner, read q = .ok inner → Settles bound q inner

variable {d read}

theorem normalize_of_target {arguments : List String} {path q : String}
    (h : d.target arguments path = .ok q) : Path.normalize q = q := by
  unfold target at h
  split at h
  · cases h
  · obtain rfl := Except.ok.inj h
    exact Path.normalize_normalize _

theorem normalize_of_mem_targets {path content q : String} (h : q ∈ d.targets path content) :
    Path.normalize q = q := by
  obtain ⟨i, -, hi⟩ := List.mem_filterMap.mp h
  cases htarget : d.target i.arguments path with
  | error reason => simp [htarget, Except.toOption] at hi
  | ok target =>
    obtain rfl : target = q := by simpa [htarget, Except.toOption] using hi
    exact normalize_of_target htarget

/-! ## Chains that end -/

theorem Settles.acc {bound : Nat} {p content : String} (hp : read p = .ok content)
    (h : d.Settles read bound p content) : Acc (fun q p => d.Includes read p q) p := by
  induction bound generalizing p content with
  | zero => exact h.elim
  | succ bound ih =>
    refine Acc.intro p fun q hq => ?_
    obtain ⟨content', hp', hmem⟩ := hq
    obtain rfl : content' = content := Except.ok.inj (hp'.symm.trans hp)
    cases hread : read q with
    | ok inner => exact ih hread (h q hmem inner hread)
    | error reason =>
      refine Acc.intro q fun r hr => ?_
      obtain ⟨inner, hinner, -⟩ := hr
      rw [hread] at hinner
      cases hinner

theorem not_transGen_of_acc {r : String → String → Prop} {p : String}
    (h : Acc (fun q p => r p q) p) : ¬ TransGen r p p := by
  induction h with
  | intro p _ ih =>
    intro hcycle
    obtain ⟨q, hpq, hqp⟩ := TransGen.head'_iff.mp hcycle
    exact ih q hpq (TransGen.tail' hqp hpq)

/-- A file whose chains of includes are bounded leads into no cycle. -/
theorem Settles.not_loops {bound : Nat} {p content : String} (hp : read p = .ok content)
    (h : d.Settles read bound p content) : ¬ d.Loops read p := by
  rintro ⟨q, hpq, hcycle⟩
  refine not_transGen_of_acc ?_ hcycle
  clear hcycle
  induction hpq with
  | refl => exact h.acc hp
  | tail _ hstep ih => exact ih.inv hstep

/-! ## Chains that do not end -/

theorem exists_chain_of_not_settles {bound : Nat} {p content : String}
    (hp : read p = .ok content) (h : ¬ d.Settles read bound p content) :
    ∃ chain : List String, chain.length = bound ∧ (p :: chain).IsChain (d.Includes read) ∧
      (∀ q ∈ chain, ∃ inner, read q = .ok inner) ∧ ∀ q ∈ chain, Path.normalize q = q := by
  induction bound generalizing p content with
  | zero => exact ⟨[], rfl, .singleton _, by simp, by simp⟩
  | succ bound ih =>
    unfold Settles at h
    push Not at h
    obtain ⟨q, hq, inner, hinner, hnot⟩ := h
    obtain ⟨chain, hlength, hchain, hreadable, hnormal⟩ := ih hinner hnot
    refine ⟨q :: chain, by rw [List.length_cons, hlength], ?_, ?_, ?_⟩
    · exact List.isChain_cons_cons.mpr ⟨⟨content, hp, hq⟩, hchain⟩
    · exact List.forall_mem_cons.mpr ⟨⟨inner, hinner⟩, hreadable⟩
    · exact List.forall_mem_cons.mpr ⟨normalize_of_mem_targets hq, hnormal⟩

/-- A chain of includes that meets a file twice leads into a cycle. -/
theorem loops_of_not_nodup {p : String} {chain : List String}
    (hchain : (p :: chain).IsChain (d.Includes read)) (hdup : ¬ chain.Nodup) :
    d.Loops read p := by
  have hpairs : (p :: chain).Pairwise (TransGen (d.Includes read)) :=
    (hchain.imp fun _ _ h => TransGen.single h).pairwise
  obtain ⟨hhead, htail⟩ := List.pairwise_cons.mp hpairs
  obtain ⟨q, hq⟩ := List.exists_duplicate_iff_not_nodup.mpr hdup
  have hcycle : [q, q].Pairwise (TransGen (d.Includes read)) :=
    htail.sublist (List.duplicate_iff_sublist.mp hq)
  exact ⟨q, (hhead q hq.mem).to_reflTransGen, by simpa using hcycle⟩

/-- **In a finite file table the includes of a file lead into a cycle or settle** within the number
of entries. -/
theorem settles_or_loops {d : Dialect} {files : Files} {p content : String}
    (hp : files.read p = .ok content) :
    d.Settles files.read (files.size + 1) p content ∨ d.Loops files.read p := by
  -- a chain of readable files that is longer than the table meets one of them twice
  by_cases h : d.Settles files.read (files.size + 1) p content
  · exact .inl h
  · obtain ⟨chain, hlength, hchain, hreadable, hnormal⟩ := exists_chain_of_not_settles hp h
    refine .inr (loops_of_not_nodup hchain fun hnodup => ?_)
    have := Files.length_le_size hnodup hreadable hnormal
    omega

end Dialect

end Stencil
