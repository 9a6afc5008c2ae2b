import Stencil.Proofs.Compile.Appearance
import Stencil.Proofs.Concurrent.Tenure
import Stencil.Proofs.Engine.Invalidate

/-! # Nothing incomplete is kept

A document with a gap is handed out, but it is not stored.  So everything in a cache is whole,
whatever has happened before, and a directive that has failed is carried out again by the next
compilation that needs it: none of the documents around it have been kept either.
-/
namespace Stencil

/-! ## Files that are written -/

namespace Files

variable {f : Files} {names : List (List Char)}

/-- The text at the end of a list of names. -/
def text? (f : Files) (names : List (List Char)) : Option String := (f.entry? names).bind Entry.text?

theorem toOption_readNames (f : Files) (names : List (List Char)) :
    (f.readNames names).toOption = f.text? names := by
  unfold readNames text?
  cases f.entry? names with
  | none =>
    dsimp only
    split <;> rfl
  | some entry => cases entry <;> rfl

theorem text?_set (f : Files) (names : List (List Char)) (entry : Entry) {other : List (List Char)}
    (hne : other ≠ names) : (f.set names entry).text? other = f.text? other := by
  have hlookup := lookup_filter_ne f.entries names other
  unfold text? entry? set
  rw [List.lookup_cons, beq_false_of_ne hne]
  simp only [hlookup, beq_iff_eq, if_neg hne]

/-- Where a directory is made, there was no text, and there is none. -/
theorem text?_makeDirectory (f : Files) (names other : List (List Char)) :
    (f.makeDirectory names).text? other = f.text? other := by
  unfold makeDirectory
  split
  · rfl
  · rename_i hentry
    by_cases hne : other = names
    · subst hne
      have hnone : f.text? other = none := by rw [text?, hentry]; rfl
      rw [hnone]
      unfold text? entry? set
      cases other <;> simp [Entry.text?]
    · exact f.text?_set names .directory hne

theorem text?_write (f : Files) (path : String) (entry : Entry) {other : List (List Char)}
    (hne : other ≠ Path.names path) : (f.write path entry).text? other = f.text? other := by
  have hways : ∀ (ways : List (List (List Char))) (f : Files),
      (ways.foldl makeDirectory f).text? other = f.text? other := by
    intro ways
    induction ways with
    | nil => exact fun f => rfl
    | cons way ways ih => exact fun f => (ih _).trans (f.text?_makeDirectory way other)
  unfold write
  simp only
  split
  · rfl
  · split
    · exact hways _ f
    · exact hways _ f
    · exact (text?_set _ _ _ hne).trans (hways _ f)

/-- Writing an entry leaves the texts of all other files as they are. -/
theorem toOption_read_write (f : Files) {path q : String} (entry : Entry)
    (hne : Path.names q ≠ Path.names path) :
    ((f.write path entry).read q).toOption = (f.read q).toOption := by
  unfold read
  split
  · rfl
  · rw [toOption_readNames, toOption_readNames, text?_write f path entry hne]

/-- A text is read where there was one, unless it is written over. -/
theorem read_write_of_ok {path q content : String} (entry : Entry)
    (hne : Path.names q ≠ Path.names path) (h : f.read q = .ok content) :
    (f.write path entry).read q = .ok content := by
  have hsame := f.toOption_read_write entry hne
  rw [h] at hsame
  cases hread : (f.write path entry).read q <;> simp_all [Except.toOption]

/-- No text is read where there was none, unless one is written. -/
theorem exists_fault_of_write {path q : String} {fault : ReadError} (entry : Entry)
    (hne : Path.names q ≠ Path.names path) (h : f.read q = .error fault) :
    ∃ fault', (f.write path entry).read q = .error fault' := by
  have hsame := f.toOption_read_write entry hne
  rw [h] at hsame
  cases hread : (f.write path entry).read q with
  | ok content => simp [hread, Except.toOption] at hsame
  | error fault' => exact ⟨fault', rfl⟩

/-- A file that can be read is not one that is missing. -/
theorem names_ne_of_read {p q content : String} (hq : f.read q = .ok content)
    (hp : f.read p = .error .notFound) : Path.names q ≠ Path.names p := by
  intro heq
  unfold read at hq hp
  split at hq
  · cases hq
  · split at hp
    · cases hp
    · rw [← heq, hq] at hp
      cases hp

end Files

/-- A document that may be used still may be if no text has changed that could be read. -/
theorem Cache.isValid_of_same {c : Cache} {files files' : Files} {x : Document}
    (hsame : ∀ q text, files.read q = .ok text → files'.read q = .ok text)
    (h : c.isValid files x = true) : c.isValid files' x = true := by
  unfold isValid at h ⊢
  cases hmode : c.mode with
  | session => rfl
  | revalidate =>
    simp only [hmode] at h ⊢
    refine (x.isFresh_iff _).mpr fun z hz => ?_
    have hcurrent := (x.isFresh_iff _).mp h z hz
    unfold Stamp.isCurrent at hcurrent ⊢
    cases hread : files.read z.stamp.path with
    | error fault => simp [hread] at hcurrent
    | ok text => simpa [hread, hsame _ _ hread] using hcurrent

/-! ## Worlds -/

/-- A world in which nothing incomplete is kept, and only the compilation with the number `owner` is
at work, on the paths in `claimed`. -/
structure World.Clean (owner : Nat) (claimed : List String) (w : World) : Prop where
  whole : w.Keeps fun _ x => x.hasGaps = false
  own : ∀ path other, w.cache.slot? path = some (.compiling other) → other = owner ∧ path ∈ claimed

namespace World.Clean

variable {w : World} {owner : Nat} {claimed : List String} {path : String}

theorem claim (h : w.Clean owner claimed) (path : String) :
    Clean owner (claimed ++ [path]) { w with cache := w.cache.fill path (.compiling owner) } where
  whole := h.whole.claim owner path
  own q other hslot := by
    rw [Cache.slot?_fill] at hslot
    split at hslot
    · rename_i hq
      obtain rfl : owner = other := by simpa using hslot
      exact ⟨rfl, by simp [hq]⟩
    · obtain ⟨hother, hmem⟩ := h.own q other hslot
      exact ⟨hother, List.mem_append_left _ hmem⟩

/-- What is stored when the work on a file is settled has no gaps. -/
theorem settle (h : w.Clean owner (claimed ++ [path])) (outcome : Outcome) :
    (w.settle owner path outcome).Clean owner claimed where
  whole := h.whole.settle owner fun _ _ hwhole => hwhole
  own q other hslot := by
    have hmine : ∀ other, w.cache.slot? path = some (.compiling other) → other = owner :=
      fun other hother => (h.own path other hother).1
    obtain ⟨hold, hne⟩ := World.compiling_of_settle hmine hslot
    obtain ⟨hother, hmem⟩ := h.own q other hold
    refine ⟨hother, (List.mem_append.mp hmem).resolve_right fun hlast => ?_⟩
    exact hne (List.mem_singleton.mp hlast)

theorem ofSlots (h : w.Clean owner claimed) {cache : Cache} (hslots : cache.slots = w.cache.slots) :
    Clean owner claimed { w with cache } := by
  have hslot (path : String) : cache.slot? path = w.cache.slot? path := by
    rw [Cache.slot?, Cache.slot?, hslots]
  exact ⟨fun q x hx => h.whole q x (hslot q ▸ hx), fun q other hq => h.own q other (hslot q ▸ hq)⟩

end World.Clean

/-- **No job ever stores anything incomplete**, whatever it is and however it ends. -/
theorem Job.run_clean {owner : Nat} {α : Type} (m : Job α) {w : World} {claimed : List String}
    (hw : w.Clean owner claimed) : (m.run owner w).2.Clean owner claimed := by
  induction m generalizing w claimed with
  | done a => exact hw
  | read path next ih => exact ih _ hw
  | number next ih => exact ih _ ⟨hw.whole, hw.own⟩
  | obtain path chain compile next ihcompile ihnext =>
    rw [Job.run, World.obtain]
    rcases w.enter_cases owner path with ⟨x, -, henter⟩ | ⟨-, henter⟩ |
      ⟨other, cache, entrance, -, henter, hslots, rfl | rfl⟩
    · rw [henter]
      exact ihnext _ hw
    · rw [henter]
      exact ihnext _ ((ihcompile (hw.claim path)).settle _)
    · rw [henter]
      exact ihnext _ (hw.ofSlots hslots)
    · rw [henter]
      exact ihnext _ (hw.ofSlots hslots)

namespace Engine

variable {e : Engine} {w : World}

/-- A world in which nobody is at work, and nothing incomplete is kept. -/
structure Whole (w : World) : Prop where
  whole : w.Keeps fun _ x => x.hasGaps = false
  free : ∀ path other, w.cache.slot? path ≠ some (.compiling other)

theorem whole_compileWith (h : Whole w) (job : (depth : Nat) → Job Outcome) :
    Whole (compileWith job w).2 := by
  have hstart : w.newOwner.2.Clean w.nextOwner [] :=
    ⟨h.whole, fun path other hslot => absurd hslot (h.free path other)⟩
  have hafter := Job.run_clean (job (w.files.size + 1)) hstart
  exact ⟨hafter.whole, fun path other hslot => List.not_mem_nil (hafter.own path other hslot).2⟩

/-- Writing and removing files leaves the cache alone. -/
theorem whole_files (h : Whole w) (files : Files) : Whole { w with files } := ⟨h.whole, h.free⟩

theorem meet_write (e : Engine) (w : World) (path : String) (entry : Entry) :
    e.meet w (.write path entry) = { w with files := w.files.write path entry } := rfl

/-- Everything that is kept stays whole through any event. -/
theorem whole_meet (h : Whole w) (event : Event) : Whole (e.meet w event) := by
  cases event with
  | write path entry => exact whole_files h _
  | remove path => exact whole_files h _
  | request request =>
    rcases e.serve_cases w request with ⟨_, _, job, _, _, -, hserve⟩ | ⟨cache, hserve, -, hslot⟩
    · rw [meet, hserve]
      exact whole_compileWith h job
    · rw [meet, hserve]
      exact ⟨fun path x hx => h.whole path x (hslot path _ hx),
        fun path other hother => h.free path other (hslot path _ hother)⟩

theorem whole_course (e : Engine) (files : Files) (mode : CacheMode) (events : List Event) :
    Whole (e.course files mode events) := by
  have hfold : ∀ w, Whole w → Whole (events.foldl e.meet w) := by
    induction events with
    | nil => exact fun w hw => hw
    | cons event events ih => exact fun w hw => ih _ (whole_meet hw event)
  exact hfold _ ⟨fun path x hslot => (by cases hslot), fun path other hslot => (by cases hslot)⟩

end Engine

/-! ## Compilations at the same time -/

/-- Nothing incomplete is ever kept in a pool, however compilations take turns, and whatever is given
up or written in between. -/
theorem Pool.whole_after (files : Files) (mode : CacheMode) (jobs : List (Job Outcome))
    (acts : List Act) :
    ((Pool.start files mode jobs).after acts).world.Keeps fun _ x => x.hasGaps = false := by
  refine after_induction (P := fun s => s.world.Keeps fun _ x => x.hasGaps = false)
    (fun path x hslot => by cases hslot) fun act _ s s' h hstep => ?_
  by_cases hact : ∃ i, act = .move (.go i)
  · obtain ⟨i, rfl⟩ := hact
    obtain ⟨t, t', -, hchange, -⟩ := change_of_go? hstep
    intro path x hslot
    cases hchange with
    | quiet hslots _ => exact h path x ((hslots path).symm.trans hslot)
    | claims claim _ hslots _ =>
      rw [hslots] at hslot
      split at hslot
      · cases hslot
      · exact h path x hslot
    | stores claim rest document _ hcache _ =>
      rw [hcache, Cache.slot?_store] at hslot
      split at hslot
      · rename_i hstored
        obtain rfl : document = x := by simpa using hslot
        exact hstored.2.2
      · exact h path x hslot
    | releases claim rest outcome _ hcache _ =>
      rw [hcache, Cache.slot?_release] at hslot
      split at hslot
      · cases hslot
      · exact h path x hslot
  · obtain ⟨-, hslots⟩ := quiet_of_step? hstep fun i hi => hact ⟨i, hi⟩
    intro path x hslot
    rcases hslots path with hsame | ⟨hnone, -⟩
    · exact h path x (hsame.symm.trans hslot)
    · exact absurd (hnone.symm.trans hslot) (by simp)

/-! ## A missing file that is created -/

namespace Engine

variable {e : Engine} {w : World}

/-- A compilation finds or makes all that it needs, and stores nothing else. -/
theorem supplies_compile (h : Whole w) (e : Engine) (root : String) :
    ∃ outcome asked, (e.compile root w).1 = outcome.map Document.program ∧
      Path.normalize root ∈ asked ∧
      w.Answers e.dialect [] (Path.normalize root) outcome asked ∧
      w.Supplies e.dialect w.nextOwner [] asked (e.compile root w).2 := by
  have hstart : w.Supplies e.dialect w.nextOwner [] ∅ w.newOwner.2 := by
    refine ⟨rfl, rfl, fun path x hx => (World.found?_eq_some_iff.mp hx).1, ?_, ?_,
      fun path other hslot => absurd hslot (h.free path other)⟩
    · exact fun path x hx hvalid => .found (World.found?_eq_some_iff.mpr ⟨hx, hvalid⟩)
    · exact fun path x _ hmem => absurd hmem (Set.notMem_empty path)
  obtain ⟨asked, -, hafter, hmem, hanswer⟩ := Job.run_meets
    (Job.meets_compileFile_supply (le_refl (w.files.size + 1)) (Path.normalize_normalize root) ∅)
    hstart (List.nil_subset [])
  exact ⟨_, asked, rfl, hmem, hanswer, hafter⟩

/-- The root of a program that is compiled is found or made. -/
theorem exists_gives (h : Whole w) {root : String} {program : Program}
    (hprogram : (e.compile root w).1 = .ok program) :
    ∃ asked, Path.normalize root ∈ asked ∧
      w.Gives e.dialect asked (Path.normalize root) program.root ∧
      program = program.root.program ∧
      w.Supplies e.dialect w.nextOwner [] asked (e.compile root w).2 := by
  obtain ⟨outcome, asked, hresult, hasked, hanswer, hafter⟩ := supplies_compile h e root
  rw [hresult] at hprogram
  cases outcome with
  | error reason => cases hprogram
  | ok x =>
    have hx : x.program = program := Except.ok.inj hprogram
    have hroot : program.root = x := congrArg Program.root hx.symm
    rw [hroot]
    exact ⟨asked, hasked, hanswer, hx.symm, hafter⟩

/-- A file appears that was missing, and nothing else happens. -/
theorem appears_of_write {owner : Nat} {asked : Set String} {after created : World} {d : Dialect}
    {p content : String} (hafter : Whole after) (h : w.Supplies d owner [] asked after)
    (hfiles : created.files = after.files.write p (.text content))
    (hcache : created.cache = after.cache) (hnormal : Path.normalize p = p)
    (hmissing : w.files.read p = .error .notFound) (hread : created.files.read p = .ok content)
    (hends : ¬ d.Loops created.files.read p) : w.Appears d p asked created := by
  have hsame : ∀ q text, w.files.read q = .ok text → created.files.read q = .ok text := by
    intro q text hq
    rw [hfiles, h.files]
    exact Files.read_write_of_ok _ (Files.names_ne_of_read hq hmissing) hq
  have hslot : ∀ q x, created.found? q = some x → after.cache.slot? q = some (.ready x) :=
    fun q x hx => hcache ▸ (World.found?_eq_some_iff.mp hx).1
  refine ⟨⟨content, hread⟩, hsame, ?_, ?_, ?_, ?_, ?_⟩
  · intro q fault hq hne hfault
    rw [hfiles, h.files]
    exact Files.exists_fault_of_write _
      (fun hnames => hne (Path.eq_of_names_eq hq hnormal hnames)) hfault
  · -- what could be used is there, and its files hold what they held
    intro q hq
    obtain ⟨x, hx⟩ := Option.ne_none_iff_exists'.mp hq
    obtain ⟨-, hvalid⟩ := World.found?_eq_some_iff.mp hx
    refine Option.ne_none_iff_exists'.mpr ⟨x, World.found?_eq_some_iff.mpr ⟨?_, ?_⟩⟩
    · rw [hcache]
      exact h.stays q x hx
    · rw [hcache, Cache.isValid_eq h.mode]
      exact Cache.isValid_of_same hsame hvalid
  · exact fun q x hasked hx => h.gives q x (hslot q x hx) (h.valid q x (hslot q x hx) hasked)
  · exact fun q x hx => hafter.whole q x (hslot q x hx)
  · have hsettles := (Dialect.settles_or_loops hread).resolve_right hends
    exact Subrelation.accessible (fun hasks => hasks.2) (hsettles.acc hread)

/-- After a file has appeared that was missing, the next compilation of the same root inserts it. -/
theorem exists_of_appears {root : String} {x : Document} {asked : Set String} {p : String}
    {created : World} (hw : Whole w) (hcreated : Whole created)
    (happears : w.Appears e.dialect p asked created) (hasked : Path.normalize root ∈ asked)
    (hgives : w.Gives e.dialect asked (Path.normalize root) x) :
    ∃ y : Document, (e.compile root created).1 = .ok y.program ∧
      (∀ z ∈ y.withIncluded, ∀ f ∈ z.failures, f.error ≠ .notFound p) ∧
      ∀ (os : List Origin) (z : Document) (f : Failure), x.Reaches os z → f ∈ z.failures →
        f.error = .notFound p → ∃ z' u : Document, y.Reaches os z' ∧ z'.path = z.path ∧
          ⟨f.origin, u⟩ ∈ z'.sites ∧ u.path = p := by
  have hfound : ∀ q x, w.found? q = some x → x.hasGaps = false :=
    fun q x hx => hw.whole q x (World.found?_eq_some_iff.mp hx).1
  obtain ⟨outcome, later, hresult, -, hanswer, -⟩ := supplies_compile hcreated e root
  match outcome, hanswer with
  | .ok y, hgives' =>
    refine ⟨y, hresult, fun z hz f hf => happears.ne_notFound hgives' hz hf, ?_⟩
    exact fun os z f hreach hf hp => happears.reaches hfound hasked hgives hgives' hreach hf hp
  | .error (.cycle _), hloops => exact absurd (happears.acc hgives) hloops
  | .error (.inclusion _), ⟨hnil, _⟩ => exact absurd rfl hnil
  | .error (.template _ _), ⟨_, hnew, fault, hfault⟩ =>
    rcases happears.available hgives with hfound | ⟨inner, hinner⟩
    · exact absurd hnew hfound
    · rw [hfault] at hinner
      cases hinner

/-- A compilation that reports a missing file is followed by one that inserts it. -/
theorem exists_of_missing (hw : Whole w) {root p content : String} {program : Program}
    {g : PlacedFailure} (hprogram : (e.compile root w).1 = .ok program)
    (hg : g ∈ program.failures) (hp : g.failure.error = .notFound p) {created : World}
    (hfiles : created.files = (e.compile root w).2.files.write p (.text content))
    (hcache : created.cache = (e.compile root w).2.cache)
    (hread : created.files.read p = .ok content)
    (hends : ¬ e.dialect.Loops created.files.read p) :
    ∃ program', (e.compile root created).1 = .ok program' ∧
      (∀ g' ∈ program'.failures, g'.failure.error ≠ .notFound p) ∧
      (∃ os x, program.root.Reaches os x ∧ g.failure ∈ x.failures) ∧
      ∀ os x, program.root.Reaches os x → g.failure ∈ x.failures →
        ∃ x' y, program'.root.Reaches os x' ∧ x'.path = x.path ∧
          ⟨g.failure.origin, y⟩ ∈ x'.sites ∧ y.path = p := by
  obtain ⟨asked, hasked, hgives, hroot, hafter⟩ := exists_gives hw hprogram
  rw [hroot] at hg
  obtain ⟨z, hz, hf⟩ := Document.exists_of_mem_failures hg
  obtain ⟨hnormal, hmissing⟩ := World.Gives.missing
    (fun q x hx => hw.whole q x (World.found?_eq_some_iff.mp hx).1) hgives hz hf hp
  have hwhole : Whole (e.compile root w).2 := whole_compileWith hw _
  have happears := appears_of_write hwhole hafter hfiles hcache hnormal hmissing hread hends
  have hcreated : Whole created := by
    refine ⟨?_, ?_⟩
    · unfold World.Keeps
      rw [hcache]
      exact hwhole.whole
    · rw [hcache]
      exact hwhole.free
  obtain ⟨y, hresult', hnone, hreaches⟩ :=
    exists_of_appears hw hcreated happears hasked hgives
  refine ⟨y.program, hresult', fun g' hg' => ?_, ?_, fun os z hreach hf => ?_⟩
  · obtain ⟨z', hz', hf'⟩ := Document.exists_of_mem_failures hg'
    exact hnone z' hz' _ hf'
  · obtain ⟨os, hreach⟩ := Document.exists_reaches program.root hz
    exact ⟨os, z, hreach, hf⟩
  · exact hreaches os z _ hreach hf hp

/-- **The cache never keeps an incomplete document, and a missing file is looked for again.**

Whatever has happened to an engine, or to a pool of compilations at the same time, all documents in
the slots of the cache are without failures, and so are all that they include.  So if a compilation
has reported that the file of a directive is missing, and this file is created and leads into no
cycle, then the next compilation of the same root succeeds and reports this no more.  Wherever
the directive has failed, the same directives lead to a document of the same file, in which the
directive inserts a document of the new file. -/
theorem whole_kept_and_missing_retried (e : Engine) (files : Files) (mode : CacheMode) :
    (∀ events path x, (e.course files mode events).cache.slot? path = some (.ready x) →
      ∀ y ∈ x.withIncluded, y.failures = []) ∧
    (∀ jobs acts path x, ((Pool.start files mode jobs).after acts).slot? path = some (.ready x) →
      ∀ y ∈ x.withIncluded, y.failures = []) ∧
    ∀ events root program g p content,
      let w := e.course files mode events
      (e.compile root w).1 = .ok program → g ∈ program.failures → g.failure.error = .notFound p →
      let created := e.meet (e.compile root w).2 (.write p (.text content))
      created.files.read p = .ok content → ¬ e.dialect.Loops created.files.read p →
      ∃ program', (e.compile root created).1 = .ok program' ∧
        (∀ g' ∈ program'.failures, g'.failure.error ≠ .notFound p) ∧
        (∃ os x, program.root.Reaches os x ∧ g.failure ∈ x.failures) ∧
        ∀ os x, program.root.Reaches os x → g.failure ∈ x.failures →
          ∃ x' y, program'.root.Reaches os x' ∧ x'.path = x.path ∧
            ⟨g.failure.origin, y⟩ ∈ x'.sites ∧ y.path = p := by
  refine ⟨fun events path x hslot y hy => ?_, fun jobs acts path x hslot y hy => ?_, ?_⟩
  · exact Document.failures_eq_nil ((e.whole_course files mode events).whole path x hslot) hy
  · exact Document.failures_eq_nil (Pool.whole_after files mode jobs acts path x hslot) hy
  intro events root program g p content w hprogram hg hp created hread hends
  have hwrite := e.meet_write (e.compile root w).2 p (.text content)
  have hfiles := congrArg World.files hwrite
  have hcache := congrArg World.cache hwrite
  exact exists_of_missing (e.whole_course files mode events) hprogram hg hp hfiles hcache hread
    hends

/-- A file that includes one which includes a missing file. -/
def missingPart : Files :=
  (Files.empty.write "/q.exp" (.text "<?exp include('p') ?>")).write "/r.exp"
    (.text "<?exp include('q') ?>")

/-- The file is created when the one that includes it and the root have both been compiled. -/
theorem missing_part_retried :
    let w := default.course missingPart .session [.request (.compile "/q.exp")]
    let created := default.meet (default.compile "/r.exp" w).2 (.write "/p.exp" (.text "plain"))
    ∃ program program', (default.compile "/r.exp" w).1 = .ok program ∧
      (default.compile "/r.exp" created).1 = .ok program' ∧
      ∃ os x x' y origin, program.root.Reaches os x ∧
        ⟨origin, .notFound "/p.exp"⟩ ∈ x.failures ∧ program'.root.Reaches os x' ∧
        ⟨origin, y⟩ ∈ x'.sites ∧ y.path = "/p.exp" := by
  intro w created
  have hfailures : (default.compile "/r.exp" w).1.toOption.map (fun program =>
      program.failures.map (·.failure.error)) = some [.notFound "/p.exp"] := by
    decide +kernel
  have hread : created.files.read "/p.exp" = .ok "plain" := by decide +kernel
  have htargets : default.dialect.targets "/p.exp" "plain" = [] := by decide +kernel
  have hsettles : default.dialect.Settles created.files.read 1 "/p.exp" "plain" := by
    intro q hq
    rw [htargets] at hq
    cases hq
  have hends : ¬ default.dialect.Loops created.files.read "/p.exp" := hsettles.not_loops hread
  obtain ⟨program, hcompiled, hmap⟩ := Option.map_eq_some_iff.mp hfailures
  have hprogram : (default.compile "/r.exp" w).1 = .ok program := by
    cases hresult : (default.compile "/r.exp" w).1 with
    | error reason => simp [hresult, Except.toOption] at hcompiled
    | ok program' => simpa [hresult, Except.toOption] using hcompiled
  obtain ⟨g, hg, herror⟩ := List.mem_map.mp (hmap ▸ List.mem_cons_self)
  obtain ⟨program', hprogram', -, ⟨os, x, hreach, hf⟩, hretried⟩ :=
    (whole_kept_and_missing_retried default missingPart .session).2.2
      [.request (.compile "/q.exp")] "/r.exp" program g "/p.exp" "plain" hprogram hg herror hread
      hends
  obtain ⟨x', y, hreach', -, hsite, hy⟩ := hretried os x hreach hf
  refine ⟨program, program', hprogram, hprogram', os, x, x', y, g.failure.origin, hreach, ?_,
    hreach', hsite, hy⟩
  rwa [← herror]

end Engine

end Stencil
