import Mathlib.Data.List.Nodup
import Mathlib.Data.List.Perm.Subperm
import Stencil.Files
import Stencil.Proofs.Path

/-! # Readable files

There are at most as many readable paths in normal form as there are entries in the table.
-/
namespace Stencil

theorem Files.names_mem_of_read {f : Files} {path content : String}
    (h : f.read path = .ok content) : Path.names path ∈ f.entries.map Prod.fst := by
  unfold Files.read at h
  split at h
  · cases h
  · unfold Files.readNames at h
    split at h
    · rename_i hentry
      unfold Files.entry? at hentry
      split at hentry
      · cases hentry
      · obtain ⟨before, after, hentries, -⟩ := List.lookup_eq_some_iff.mp hentry
        rw [hentries]
        simp
    · cases h
    · cases h
    · split at h <;> cases h

/-- Different readable paths in normal form are at most as many as the entries of the table. -/
theorem Files.length_le_size {f : Files} {paths : List String} (hnodup : paths.Nodup)
    (hread : ∀ p ∈ paths, ∃ content, f.read p = .ok content)
    (hnormal : ∀ p ∈ paths, Path.normalize p = p) : paths.length ≤ f.size := by
  have hnames : (paths.map Path.names).Nodup :=
    hnodup.map_on fun p hp q hq h => Path.eq_of_names_eq (hnormal p hp) (hnormal q hq) h
  have hsub : paths.map Path.names ⊆ f.entries.map Prod.fst := by
    intro names hmem
    obtain ⟨p, hp, rfl⟩ := List.mem_map.mp hmem
    obtain ⟨content, hcontent⟩ := hread p hp
    exact f.names_mem_of_read hcontent
  calc paths.length = (paths.map Path.names).length := (List.length_map _).symm
    _ ≤ (f.entries.map Prod.fst).length := (hnames.subperm hsub).length_le
    _ = f.size := List.length_map _

end Stencil
