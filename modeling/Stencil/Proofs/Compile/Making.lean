import Stencil.Proofs.Compile.World

/-! # What documents are made of

A cache may hand out documents that no longer belong to the files as they are.  Something can be
said of them all the same: each of them was made from a text at some time, by a compilation that
then gave it a new number, and what was found in the cache at that time is part of it as it was.  So
a property of single documents that new documents have is one of all documents that are ever handed
out, if the cache holds no others at first.
-/
namespace Stencil
open Template (originAt)

/-! ## Pieces without what directives become -/

mutual

/-- A piece without what directives have become in it. -/
def Chunk.shell : Chunk → Chunk
  | .code text => .code text
  | .verbatim text => .verbatim text
  | .gap _ => .code ""
  | .fragment own chunks => .fragment own (shellOfChunks chunks)
  | .inclusion _ _ => .code ""

/-- Pieces without what directives have become in them. -/
def shellOfChunks : List Chunk → List Chunk
  | [] => []
  | c :: cs => c.shell :: shellOfChunks cs

end

theorem shellOfChunks_eq_map (cs : List Chunk) : shellOfChunks cs = cs.map Chunk.shell := by
  induction cs with
  | nil => rfl
  | cons c cs ih => rw [shellOfChunks, ih, List.map_cons]

/-- The piece of a node without what its directives become. -/
def Template.Node.shell (source : String) (n : Template.Node) : Chunk :=
  n.piece source fun _ => .code ""

/-- A document was made from a text.  This says all about it but its number and what its directives
have become. -/
structure Dialect.MadeFrom (d : Dialect) (content : String) (document : Document) : Prop where
  hash : document.stamp.hash = contentHash content
  malformed : document.stamp.malformed = (d.tree content).malformed
  pieces : shellOfChunks document.chunks =
    (d.tree content).nodes.map (Template.Node.shell document.path)

/-- All documents in a document have a property. -/
def Document.All (G : Document → Prop) (document : Document) : Prop :=
  ∀ x ∈ document.withIncluded, G x

/-- All documents in what a directive or a node has become have a property. -/
def Chunk.All (G : Document → Prop) (c : Chunk) : Prop := ∀ x ∈ c.documents, G x

/-! ## Jobs -/

/-- If there is a document at the end, it has a property. -/
def Delivers (P : Document → Prop) (outcome : Outcome) : Prop :=
  ∀ document, outcome = .ok document → P document

/-- A job ends with a result that meets a condition, if files are read as they are, new numbers are
at least `lo`, and all documents that it is handed have a property.  So do those that it makes when
it is asked for one. -/
inductive Job.Makes (files : Files) (lo : Nat) (P : Document → Prop) :
    {α : Type} → Job α → (post : α → Prop) → Prop
  | done {α : Type} {a : α} {post : α → Prop} (h : post a) : Makes files lo P (.done a) post
  | read {α : Type} {path : String} {next : Except ReadError String → Job α} {post : α → Prop}
    (h : Makes files lo P (next (files.read path)) post) :
    Makes files lo P (.read path next) post
  | number {α : Type} {next : Nat → Job α} {post : α → Prop}
    (h : ∀ n, lo ≤ n → Makes files lo P (next n) post) : Makes files lo P (.number next) post
  | obtain {α : Type} {path : String} {chain : List String} {compile : Job Outcome}
    {next : Outcome → Job α} {post : α → Prop} (hcompile : Makes files lo P compile (Delivers P))
    (hnext : ∀ outcome, Delivers P outcome → Makes files lo P (next outcome) post) :
    Makes files lo P (.obtain path chain compile next) post

namespace Job

variable {files : Files} {lo : Nat} {P : Document → Prop}

theorem Makes.mono {α : Type} {m : Job α} {post post' : α → Prop} (h : m.Makes files lo P post)
    (hpost : ∀ a, post a → post' a) : m.Makes files lo P post' := by
  induction m with
  | done a =>
    cases h with
    | done h => exact .done (hpost a h)
  | read path next ih =>
    cases h with
    | read h => exact .read (ih _ h hpost)
  | number next ih =>
    cases h with
    | number h => exact .number fun n hn => ih n (h n hn) hpost
  | obtain path chain compile next _ ih =>
    cases h with
    | obtain hcompile hnext =>
      exact .obtain hcompile fun outcome houtcome => ih outcome (hnext outcome houtcome) hpost

theorem Makes.bind {α β : Type} {m : Job α} {f : α → Job β} {post : β → Prop}
    (h : m.Makes files lo P fun a => (f a).Makes files lo P post) :
    (m.bind f).Makes files lo P post := by
  induction m with
  | done a =>
    cases h with
    | done h => exact h
  | read path next ih =>
    cases h with
    | read h => exact .read (ih _ h)
  | number next ih =>
    cases h with
    | number h => exact .number fun n hn => ih n (h n hn)
  | obtain path chain compile next _ ih =>
    cases h with
    | obtain hcompile hnext =>
      exact .obtain hcompile fun outcome houtcome => ih outcome (hnext outcome houtcome)

/-- Two actions one after the other; after an error there is nothing to show. -/
theorem Makes.bindCompiling {β γ : Type} {m : Compiling β} {f : β → Compiling γ}
    {mid : β → Prop} {post : γ → Prop}
    (h : Makes files lo P m.run fun r => ∀ b, r = .ok b → mid b)
    (hf : ∀ b, mid b → Makes files lo P (f b).run fun r => ∀ c, r = .ok c → post c) :
    Makes files lo P (m >>= f).run fun r => ∀ c, r = .ok c → post c := by
  rw [ExceptT.run_bind]
  refine Makes.bind (h.mono fun r hr => ?_)
  cases r with
  | ok b => exact hf b (hr b rfl)
  | error reason => exact .done fun c hc => by cases hc

/-- An action that ends at once. -/
theorem Makes.pureCompiling {β : Type} {b : β} {post : β → Prop} (h : post b) :
    Makes files lo P (pure b : Compiling β).run fun r => ∀ c, r = .ok c → post c := by
  refine .done fun c hc => ?_
  obtain rfl := Except.ok.inj hc
  exact h

/-! ## Pieces -/

/-- A piece has a known shell, and all documents in it have a property. -/
def Shaped (G : Document → Prop) (shell : Chunk) (c : Chunk) : Prop := c.shell = shell ∧ c.All G

variable {G : Document → Prop} {path : String} {insert : Template.Inclusion → Compiling Chunk}

theorem makes_mapM {α : Type} {xs : List α} {f : α → Compiling Chunk} {shell : α → Chunk}
    (h : ∀ x ∈ xs, Makes files lo P (f x).run fun r => ∀ c, r = .ok c → Shaped G (shell x) c) :
    Makes files lo P (xs.mapM f).run fun r => ∀ cs, r = .ok cs →
      shellOfChunks cs = xs.map shell ∧ ∀ x ∈ documentsOfChunks cs, G x := by
  induction xs with
  | nil => exact Makes.pureCompiling ⟨rfl, by simp [documentsOfChunks]⟩
  | cons x xs ih =>
    rw [List.mapM_cons]
    refine (h x List.mem_cons_self).bindCompiling fun c hc => ?_
    refine (ih fun y hy => h y (List.mem_cons_of_mem x hy)).bindCompiling fun cs hcs => ?_
    refine Makes.pureCompiling ⟨?_, ?_⟩
    · rw [shellOfChunks, List.map_cons, hc.1, hcs.1]
    · rw [documentsOfChunks, List.forall_mem_append]
      exact ⟨hc.2, hcs.2⟩

theorem makes_inclusion {i : Template.Inclusion}
    (h : Makes files lo P (insert i).run fun r => ∀ c, r = .ok c → Shaped G (.code "") c) :
    Makes files lo P (i.chunk path insert).run fun r => ∀ c, r = .ok c →
      Shaped G (.fragment (some (originAt path i.location.start)) [.code ""]) c := by
  refine h.bindCompiling fun c hc => Makes.pureCompiling ⟨?_, ?_⟩
  · rw [Chunk.shell, shellOfChunks, shellOfChunks, hc.1]
  · rw [Chunk.All, Chunk.documents, documentsOfChunks, documentsOfChunks, List.append_nil]
    exact hc.2

theorem makes_part {part : Template.BlockPart}
    (h : ∀ i, part = .inclusion i →
      Makes files lo P (insert i).run fun r => ∀ c, r = .ok c → Shaped G (.code "") c) :
    Makes files lo P (part.chunk path insert).run fun r => ∀ c, r = .ok c →
      Shaped G (part.piece path fun _ => .code "") c := by
  cases part with
  | script span => exact Makes.pureCompiling ⟨rfl, fun x hx => by cases hx⟩
  | inclusion i => exact makes_inclusion (h i rfl)

/-- The piece of a node has the shell of the node. -/
theorem makes_node {n : Template.Node}
    (h : ∀ i ∈ n.inclusions,
      Makes files lo P (insert i).run fun r => ∀ c, r = .ok c → Shaped G (.code "") c) :
    Makes files lo P (n.chunk path insert).run fun r => ∀ c, r = .ok c →
      Shaped G (n.shell path) c := by
  cases n with
  | text location value => exact Makes.pureCompiling ⟨rfl, fun x hx => by cases hx⟩
  | inlineWrite location children =>
    refine Makes.pureCompiling ⟨?_, fun x hx => ?_⟩
    · have hcopied : (children.map (Template.copied path)).map Chunk.shell =
          children.map (Template.copied path) := List.map_map.trans rfl
      rw [Template.Node.shell, Template.Node.piece_inlineWrite, Chunk.shell, shellOfChunks_eq_map,
        List.map_append, List.map_cons, hcopied]
      rfl
    · obtain ⟨c, hc, hx⟩ := mem_documentsOfChunks.mp hx
      simp only [List.cons_append, List.mem_cons, List.mem_append, List.mem_map, List.not_mem_nil,
        or_false] at hc
      rcases hc with rfl | ⟨s, -, rfl⟩ | rfl <;> cases hx
  | block location parts =>
    have hparts : ∀ part ∈ parts, Makes files lo P (part.chunk path insert).run fun r =>
        ∀ c, r = .ok c → Shaped G (part.piece path fun _ => .code "") c :=
      fun part hpart => makes_part fun i hi =>
        h i (Template.mem_inclusions_block.mpr (hi ▸ hpart))
    refine (makes_mapM hparts).bindCompiling fun cs hcs => Makes.pureCompiling ⟨?_, ?_⟩
    · rw [Template.Node.shell, Template.Node.piece_block, Chunk.shell, shellOfChunks_eq_map,
        List.map_append, ← shellOfChunks_eq_map, hcs.1]
      rfl
    · rw [Chunk.All, Chunk.documents, documentsOfChunks_append, List.forall_mem_append]
      exact ⟨hcs.2, fun x hx => by cases hx⟩
  | inclusion i => exact makes_inclusion (h i List.mem_cons_self)

/-- The pieces of a tree have the shells of its nodes. -/
theorem makes_chunks {tree : Template.Tree}
    (h : ∀ i, Makes files lo P (insert i).run fun r => ∀ c, r = .ok c → Shaped G (.code "") c) :
    Makes files lo P (tree.chunks path insert).run fun r => ∀ cs, r = .ok cs →
      shellOfChunks cs = tree.nodes.map (Template.Node.shell path) ∧
        ∀ x ∈ documentsOfChunks cs, G x :=
  makes_mapM fun _ _ => makes_node fun i _ => h i

/-! ## Directives and files -/

variable {d : Dialect}

/-- A directive becomes a gap or a document that was handed out. -/
theorem makes_insert {chain : List String} {file : String}
    {compile : (path content : String) → Job Outcome} {i : Template.Inclusion}
    (hcompile : ∀ q inner, files.read q = .ok inner →
      (compile q inner).Makes files lo (Document.All G) (Delivers (Document.All G))) :
    Makes files lo (Document.All G) (Stencil.insert d chain file compile i).run fun r =>
      ∀ c, r = .ok c → Shaped G (.code "") c := by
  unfold Stencil.insert
  cases htarget : d.target i.arguments file with
  | error reason => exact Makes.pureCompiling ⟨rfl, fun x hx => by cases hx⟩
  | ok target =>
    simp only
    cases hdrop : chain.dropWhile (· != target) with
    | cons first rest => exact .done fun c hc => by cases hc
    | nil =>
      refine .obtain (.read ?_) fun outcome houtcome => .done fun c hc => ?_
      · cases hread : files.read target with
        | ok content => exact hcompile target content hread
        | error fault => exact .done fun document hdocument => by cases hdocument
      · match outcome, houtcome, hc with
        | .ok document, houtcome, hc =>
          obtain rfl := Except.ok.inj hc
          exact ⟨rfl, houtcome document rfl⟩
        | .error (.inclusion reason), _, hc =>
          obtain rfl := Except.ok.inj hc
          exact ⟨rfl, fun x hx => by cases hx⟩

/-- What a text becomes: a new document that is made from it, out of documents that have a
property. -/
structure Made (d : Dialect) (lo : Nat) (G : Document → Prop) (path content : String)
    (document : Document) : Prop where
  path_eq : document.path = path
  new : lo ≤ document.number
  made : d.MadeFrom content document
  inner : ∀ x ∈ documentsOfChunks document.chunks, G x

/-- If new documents that are made from files have a property, those that a text is made of have it,
whatever the text is. -/
theorem makes_compileText (hnew : ∀ x content, files.read x.path = .ok content →
      lo ≤ x.number → d.MadeFrom content x → G x)
    (depth : Nat) (chain : List String) (path content : String) :
    (compileText d depth chain path content).Makes files lo (Document.All G)
      (Delivers (Made d lo G path content)) := by
  induction depth generalizing chain path content with
  | zero => exact .done fun document hdocument => by cases hdocument
  | succ depth ih =>
    have hinsert : ∀ i : Template.Inclusion, Makes files lo (Document.All G)
        (Stencil.insert d (chain ++ [path]) path (compileText d depth (chain ++ [path])) i).run
        fun r => ∀ c, r = .ok c → Shaped G (.code "") c := by
      refine fun i => makes_insert fun q inner hread => (ih _ q inner).mono ?_
      intro outcome houtcome document hdocument
      have hmade := houtcome document hdocument
      rw [Document.All, document.withIncluded_eq, List.forall_mem_cons]
      exact ⟨hnew document inner (hmade.path_eq ▸ hread) hmade.new hmade.made, hmade.inner⟩
    rw [Terms.compileText_succ]
    refine Makes.bind ((makes_chunks hinsert).mono fun r hr => ?_)
    cases r with
    | error reason => exact .done fun document hdocument => by cases hdocument
    | ok chunks =>
      obtain ⟨hshell, hdocuments⟩ := hr chunks rfl
      refine .number fun number hnumber => .done fun document hdocument => ?_
      obtain rfl := Except.ok.inj hdocument
      have hmade : d.MadeFrom content
          (.mk ⟨number, path, contentHash content, (d.tree content).malformed⟩ chunks) :=
        ⟨by rw [Document.stamp], by rw [Document.stamp], hshell⟩
      exact ⟨rfl, hnumber, hmade, hdocuments⟩

/-- So does everything that a file is made of, its own document included. -/
theorem makes_compileFile (hnew : ∀ x content, files.read x.path = .ok content →
      lo ≤ x.number → d.MadeFrom content x → G x) (depth : Nat) (path : String) :
    (compileFile d depth path).Makes files lo (Document.All G) (Delivers (Document.All G)) := by
  refine .obtain (.read ?_) fun outcome houtcome => .done houtcome
  cases hread : files.read path with
  | error fault => exact .done fun document hdocument => by cases hdocument
  | ok content =>
    refine (makes_compileText hnew depth [] path content).mono ?_
    intro outcome houtcome document hdocument
    have hmade := houtcome document hdocument
    rw [Document.All, document.withIncluded_eq, List.forall_mem_cons]
    exact ⟨hnew document content (hmade.path_eq ▸ hread) hmade.new hmade.made, hmade.inner⟩

end Job

/-! ## Carrying out jobs -/

/-- A world in which numbers have come up to `lo`, and which keeps only documents with a
property. -/
structure World.Holds (files : Files) (lo : Nat) (P : Document → Prop) (w : World) : Prop where
  reads : w.files = files
  late : lo ≤ w.nextDocument
  kept : w.Keeps fun _ => P

namespace World

variable {files : Files} {lo : Nat} {P : Document → Prop} {w : World}

/-- Asking for a document changes nothing of this, and what is found has the property. -/
theorem Holds.enter (h : w.Holds files lo P) (owner : Nat) (path : String) :
    (w.enter owner path).1.Holds files lo P ∧
      ∀ document, (w.enter owner path).2 = .found document → P document := by
  have hclaim : Holds files lo P { w with cache := w.cache.fill path (.compiling owner) } :=
    ⟨h.reads, h.late, h.kept.claim owner path⟩
  unfold World.enter Cache.enter
  match hslot : w.cache.slot? path with
  | none => exact ⟨hclaim, fun document hfound => by cases hfound⟩
  | some (.ready document) =>
    by_cases hvalid : w.cache.isValid w.files document = true
    · refine ⟨by simpa [hvalid] using h, fun document' hfound => ?_⟩
      obtain rfl : document = document' := by simpa [hvalid] using hfound
      exact h.kept path document hslot
    · exact ⟨by simpa [hvalid, hslot] using hclaim, fun document' hfound => by
        simp [hvalid, hslot] at hfound⟩
  | some (.compiling other) =>
    by_cases hloop : w.cache.closesLoop owner other = true
    · exact ⟨by simpa [hloop] using h, fun document hfound => by simp [hloop] at hfound⟩
    · exact ⟨by simpa [hloop] using ⟨h.reads, h.late, h.kept⟩, fun document hfound => by
        simp [hloop] at hfound⟩

end World

/-- **Carried out alone, a job ends with what it makes**, and the world still keeps only documents
with the property. -/
theorem Job.run_makes {files : Files} {lo : Nat} {P : Document → Prop} {α : Type} {m : Job α}
    {post : α → Prop} (h : m.Makes files lo P post) (owner : Nat) {w : World}
    (hw : w.Holds files lo P) :
    (m.run owner w).2.Holds files lo P ∧ post (m.run owner w).1 := by
  induction h generalizing w with
  | done hpost => exact ⟨hw, hpost⟩
  | @read α path next post _ ih =>
    rw [Job.run, hw.reads]
    exact ih hw
  | @number α next post _ ih =>
    rw [Job.run]
    exact ih w.nextDocument hw.late ⟨hw.reads, Nat.le_succ_of_le hw.late, hw.kept⟩
  | @obtain α path chain compile next post _ _ ihcompile ihnext =>
    obtain ⟨hentered, hfound⟩ := hw.enter owner path
    have hrefused : Delivers P (.error (.cycle chain)) := fun document hdocument => by
      cases hdocument
    rw [Job.run, World.obtain]
    generalize w.enter owner path = entered at hentered hfound ⊢
    obtain ⟨w', entrance⟩ := entered
    cases entrance with
    | found document =>
      refine ihnext (.ok document) (fun document' hdocument => ?_) hentered
      obtain rfl := Except.ok.inj hdocument
      exact hfound document rfl
    | claimed =>
      obtain ⟨hafter, hdelivers⟩ := ihcompile hentered
      refine ihnext _ hdelivers ⟨hafter.reads, hafter.late, ?_⟩
      exact hafter.kept.settle owner fun document houtcome _ => hdelivers document houtcome
    | waits => exact ihnext _ hrefused ⟨hentered.reads, hentered.late, hentered.kept⟩
    | refused => exact ihnext _ hrefused hentered

end Stencil
