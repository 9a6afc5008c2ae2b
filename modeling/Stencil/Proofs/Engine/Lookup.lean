import Stencil.Proofs.Compile.Naming
import Stencil.Proofs.Engine.Attribution
import Stencil.Proofs.Engine.Virtual

/-! # Lookups in compiled programs

Where a lookup leads in the programs that an engine compiles, whatever place it is made for.  A place
beside a line of the code, such as a column behind its end, passes for one of the code: a lookup of
it is exact, and its column is counted on from the last mapping of the line, be there such a column
in the file or not.
-/
namespace Stencil
namespace Engine

/-- **The lookups of every place are exact for the characters of the code and beside its lines**, and
approximate in front of the code and from its end on.  Except beside a line, what is found is the
place of a byte of a file that the program is made of, with a column that the file has room for. -/
theorem locates_compile (e : Engine) (files : Files) (mode : CacheMode) (requests : List Request)
    (path source : String) :
    (match (e.compile path (e.history files mode requests)).1 with
      | .error _ => True
      | .ok program => program.map.mappings ≠ [] →
        program.Locates (Origin.LiesIn fun p content => files.read p = .ok content)) ∧
    match (e.compileSource path source (e.history files mode requests)).1 with
    | .error _ => True
    | .ok program => program.map.mappings ≠ [] →
      program.Locates (Origin.LiesIn fun p content =>
        files.read p = .ok content ∨ p = Path.normalize path ∧ content = source) := by
  have hidle := e.idle_history files mode requests
  constructor
  · cases hcompiled : (e.compile path (e.history files mode requests)).1 with
    | error reason => trivial
    | ok program =>
      obtain ⟨document, rfl, content, hread, -, hbare⟩ := hidle.compiles_of_ok hcompiled
      exact Dialect.locates_of_bare (fun _ _ h => h) hread hbare
  · cases hcompiled : (e.compileSource path source (e.history files mode requests)).1 with
    | error reason => trivial
    | ok program =>
      obtain ⟨document, rfl, -, hbare⟩ := hidle.settles_of_compileSource hcompiled
      exact Dialect.locates_of_bare (fun _ _ h => .inl h) (.inr ⟨rfl, rfl⟩) hbare

/-- A file with two lines of script. -/
def twoLineFile : Files := Files.empty.write "/main.exp" (.text "<?exp let a;\nlet b; ?>")

/-- The first line of the code has eight columns. A lookup of a column behind them is exact and
leads behind the end of the line in the file, and the last of the columns that 32 bits can hold leads
to one that they cannot. -/
theorem column_behind_line_is_exact :
    let e := Engine.ofOptions .default
    let w := e.history twoLineFile .session []
    ∃ p, (e.compile "/main.exp" w).1 = .ok p ∧ p.code = " let a;\nlet b; \n" ∧
      ⟨1, 50⟩ ∉ Mark.origin.along p.code.toList ∧
      p.map.origin? ⟨1, 50⟩ = some ⟨⟨"/main.exp", ⟨1, 55⟩⟩, false⟩ ∧
      ∃ column, p.map.origin? ⟨1, 2 ^ 32 - 1⟩ = some ⟨⟨"/main.exp", ⟨1, column⟩⟩, false⟩ ∧
        2 ^ 32 ≤ column := by
  dsimp only
  rw [ofOptions_default]
  have hlooked : (default.compile "/main.exp" (default.history twoLineFile .session [])).1.toOption.map
      (fun p => (p.code, p.map.origin? ⟨1, 50⟩, p.map.origin? ⟨1, 2 ^ 32 - 1⟩)) =
      some (" let a;\nlet b; \n", some ⟨⟨"/main.exp", ⟨1, 55⟩⟩, false⟩,
        some ⟨⟨"/main.exp", ⟨1, 2 ^ 32 + 4⟩⟩, false⟩) := by
    decide +kernel
  cases hcompiled : (default.compile "/main.exp" (default.history twoLineFile .session [])).1 with
  | error reason =>
    rw [hcompiled] at hlooked
    cases hlooked
  | ok p =>
    rw [hcompiled] at hlooked
    obtain ⟨hcode, hplaces⟩ := Prod.mk.inj (Option.some.inj hlooked)
    obtain ⟨hnear, hfar⟩ := Prod.mk.inj hplaces
    refine ⟨p, rfl, hcode, ?_, hnear, 2 ^ 32 + 4, hfar, by decide⟩
    rw [hcode]
    decide

end Engine

end Stencil
