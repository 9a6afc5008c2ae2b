import Stencil.Engine
import Stencil.Proofs.Path

/-! # The keys of files

A file is compiled and kept under the normal form of its path.  What a path names lexically is said
here by a relation that goes through its components one by one: from the root, or for a request from
the directory of the file that makes it.  Normal forms are proper absolute paths, and two paths or
requests have the same one just if they lead to the same place, whatever directories they come from
and however often they climb above the root.
-/
namespace Stencil
namespace Path

/-! ## Components -/

/-- What stands between the slashes of a path. -/
def components (path : String) : List (List Char) := path.toList.splitOn '/'

theorem pieces_eq_splitOn (cs : List Char) : pieces cs = cs.splitOn '/' := by
  induction cs with
  | nil => rfl
  | cons c cs ih =>
    rw [List.splitOn, List.splitOnP_cons_eq_if_modifyHead, ← List.splitOn, ← ih]
    by_cases hc : c = '/'
    · subst hc
      rfl
    · obtain ⟨piece, rest, hcs, hccs⟩ := pieces_cons_of_ne hc cs
      rw [if_neg (by simpa using hc), hccs, hcs, List.modifyHead_cons]

theorem joinPieces_eq_intercalate (ns : List (List Char)) :
    joinPieces ns = ['/'].intercalate ns := by
  induction ns with
  | nil => rfl
  | cons n ns ih =>
    cases ns with
    | nil => simp [joinPieces]
    | cons m ms =>
      rw [joinPieces, ih, List.intercalate_cons_cons, List.append_assoc, List.singleton_append]
      exact List.cons_ne_nil m ms

/-- A slash divides the pieces in front of it from those behind it. -/
theorem pieces_append_slash (cs ds : List Char) :
    pieces (cs ++ '/' :: ds) = pieces cs ++ pieces ds := by
  induction cs with
  | nil => rfl
  | cons c cs ih =>
    by_cases hc : c = '/'
    · subst hc
      rw [List.cons_append, pieces_slash, pieces_slash, ih, List.cons_append]
    · obtain ⟨piece, rest, hcs, hccs⟩ := pieces_cons_of_ne hc cs
      obtain ⟨first, more, hall, hcall⟩ := pieces_cons_of_ne hc (cs ++ '/' :: ds)
      rw [ih, hcs, List.cons_append] at hall
      obtain ⟨rfl, rfl⟩ := List.cons.inj hall
      rw [List.cons_append, hcall, hccs, List.cons_append]

/-! ## Where components lead -/

/-- A component that is the name of something in a directory. -/
def Enters (component : List Char) : Prop :=
  component ≠ [] ∧ component ≠ ['.'] ∧ component ≠ ['.', '.']

/-- Where components lead from the directory with the names `names`, the outermost first. -/
inductive Leads : (names components goal : List (List Char)) → Prop
  | arrived (names : List (List Char)) : Leads names [] names
  /-- Nothing and a single point stay in the directory. -/
  | stay {names components goal : List (List Char)} {component : List Char}
    (hstay : component = [] ∨ component = ['.']) (rest : Leads names components goal) :
    Leads names (component :: components) goal
  /-- Two points climb to the directory around it; above the root there is nothing. -/
  | climb {names components goal : List (List Char)} (rest : Leads names.dropLast components goal) :
    Leads names (['.', '.'] :: components) goal
  /-- A name is entered. -/
  | enter {names components goal : List (List Char)} {component : List Char}
    (henter : Enters component) (rest : Leads (names ++ [component]) components goal) :
    Leads names (component :: components) goal

theorem walk_of_stays {component : List Char} (h : component = [] ∨ component = ['.'])
    (names : List (List Char)) : walk names component = names := by
  rcases h with rfl | rfl <;> rfl

theorem walk_of_enters {component : List Char} (h : Enters component)
    (names : List (List Char)) : walk names component = component :: names := by
  obtain ⟨hempty, hpoint, hpoints⟩ := h
  rw [walk, if_neg (by simp [isIdle, hempty, hpoint]), if_neg (by simpa using hpoints)]

/-- Walking along the components leads where they lead. -/
theorem leads_iff {names components goal : List (List Char)} :
    Leads names components goal ↔ goal = (components.foldl walk names.reverse).reverse := by
  constructor
  · intro h
    induction h with
    | arrived names => rw [List.foldl_nil, List.reverse_reverse]
    | stay hstay rest ih => rw [List.foldl_cons, walk_of_stays hstay, ih]
    | climb rest ih => rw [List.foldl_cons, ih, ← List.tail_reverse]; rfl
    | enter henter rest ih =>
      rw [List.foldl_cons, walk_of_enters henter, ih, List.reverse_append, List.reverse_singleton,
        List.singleton_append]
  · rintro rfl
    induction components generalizing names with
    | nil =>
      rw [List.foldl_nil, List.reverse_reverse]
      exact .arrived names
    | cons component components ih =>
      rw [List.foldl_cons]
      by_cases hstay : component = [] ∨ component = ['.']
      · rw [walk_of_stays hstay]
        exact .stay hstay ih
      by_cases hpoints : component = ['.', '.']
      · subst hpoints
        have hclimb : walk names.reverse ['.', '.'] = names.dropLast.reverse :=
          List.tail_reverse
        rw [hclimb]
        exact .climb ih
      · have henter : Enters component := ⟨mt .inl hstay, mt .inr hstay, hpoints⟩
        have hentered : walk names.reverse component = (names ++ [component]).reverse := by
          rw [walk_of_enters henter, List.reverse_append]
          rfl
        rw [hentered]
        exact .enter henter ih

/-- A path leads from the root through its names. -/
theorem leads_components (path : String) (goal : List (List Char)) :
    Leads [] (components path) goal ↔ goal = names path := by
  rw [leads_iff, components, ← pieces_eq_splitOn]
  rfl

/-! ## Joined paths -/

/-- A path that is seen from a directory goes on from its names. -/
theorem names_join (directory : String) {path : String} (h : path.startsWith "/" = false) :
    names (join directory path) =
      ((pieces path.toList).foldl walk (names directory).reverse).reverse := by
  unfold join
  rw [h, Bool.false_or]
  by_cases hempty : directory.isEmpty = true
  · rw [if_pos hempty, String.isEmpty_iff.mp hempty]
    rfl
  rw [if_neg hempty]
  by_cases hslash : directory.endsWith "/" = true
  · obtain ⟨front, hfront⟩ : "/".toList <:+ directory.toList := by
      rw [String.endsWith_eq_endsWith_toSlice, String.Slice.endsWith_string_iff] at hslash
      simpa using hslash
    have hdirectory : directory.toList = front ++ '/' :: [] := hfront.symm
    -- the slash at the end is followed by nothing, which stays where it is
    have hnames : (names directory).reverse = (pieces front).foldl walk [] := by
      rw [names, hdirectory, pieces_append_slash, List.foldl_append, List.reverse_reverse]
      rfl
    rw [if_pos hslash, hnames, names, String.toList_append, hdirectory, List.append_assoc]
    show ((pieces (front ++ '/' :: path.toList)).foldl walk []).reverse = _
    rw [pieces_append_slash, List.foldl_append]
  · have hbetween : (directory ++ "/" ++ path).toList =
        directory.toList ++ '/' :: path.toList := by simp
    rw [if_neg hslash, names, hbetween, pieces_append_slash, List.foldl_append, names,
      List.reverse_reverse]

/-- A path has the same normal form from a directory and from the normal form of it. -/
theorem normalize_join (directory path : String) :
    normalize (join directory path) = normalize (join (normalize directory) path) := by
  cases h : path.startsWith "/" with
  | true => simp only [join, h, Bool.true_or, if_true]
  | false => rw [normalize, normalize, names_join _ h, names_join _ h, names_normalize]

theorem leads_join (directory : String) {path : String} (h : path.startsWith "/" = false)
    (goal : List (List Char)) :
    Leads (names directory) (components path) goal ↔ goal = names (join directory path) := by
  rw [leads_iff, names_join directory h, components, pieces_eq_splitOn]

/-! ## Normal forms -/

theorem isName_iff {n : List Char} : IsName n ↔ Enters n ∧ '/' ∉ n := by
  unfold IsName Enters isIdle
  simp only [Bool.or_eq_false_iff, List.isEmpty_eq_false_iff, beq_eq_false_iff_ne]
  tauto

/-- No slash stands at the end of names with slashes between them. -/
theorem not_slash_of_joinPieces {ns : List (List Char)} (h : ∀ n ∈ ns, IsName n) {front : List Char}
    (hend : '/' :: joinPieces ns = front ++ ['/']) : front = [] := by
  cases front with
  | nil => rfl
  | cons c front =>
    obtain ⟨-, hjoin⟩ := List.cons.inj hend
    -- nothing would be the last name
    have hpieces : pieces (joinPieces ns) = pieces front ++ pieces [] := by
      rw [hjoin]
      exact pieces_append_slash front []
    have hne : ns ≠ [] := by
      rintro rfl
      simp [joinPieces] at hjoin
    rw [pieces_joinPieces hne fun n hn => (h n hn).1] at hpieces
    have hlast : [] ∈ ns := by simp [hpieces, pieces]
    exact absurd rfl (isName_iff.mp (h [] hlast)).1.1

/-- The directory of a file. -/
theorem parent?_ofNames {ns : List (List Char)} {n : List Char} (h : ∀ m ∈ ns ++ [n], IsName m) :
    parent? (ofNames (ns ++ [n])) = some (ofNames ns) := by
  have hidle : ∀ m ∈ ns ++ [n], isIdle m = false := fun m hm => (h m hm).2.1
  have hpieces : (pieces (joinPieces (ns ++ [n]))).reverse = n :: ns.reverse := by
    rw [pieces_joinPieces (by simp) fun m hm => (h m hm).1, List.reverse_append,
      List.reverse_singleton, List.singleton_append]
  have houter : ns.reverse.dropWhile isIdle = ns.reverse := by
    cases hns : ns.reverse with
    | nil => rfl
    | cons m ms =>
      have hm : m ∈ ns := List.mem_reverse.mp (hns ▸ List.mem_cons_self)
      rw [List.dropWhile_cons_of_neg (by simp [hidle m (List.mem_append_left _ hm)])]
  have hkept : (n :: ns.reverse).dropWhile isIdle = n :: ns.reverse :=
    List.dropWhile_cons_of_neg (by simp [hidle n])
  unfold parent? ofNames
  rw [String.toList_ofList]
  simp only [hpieces, hkept, houter, List.reverse_reverse]
  rfl

/-! ## Requests -/

/-- The file that a request asks for: it ends in the extension once, however it is asked for. -/
def requestedFile (extension request : String) : String :=
  let stem := stripExtension request extension
  if extension.isEmpty then stem else stem ++ "." ++ extension

/-- Where a request for `name` leads that is made in a file: from the root if it is absolute, and
else from the directory of the file. -/
inductive Requests (name file : String) : (goal : List (List Char)) → Prop
  | absolute {goal : List (List Char)} (habsolute : name.startsWith "/" = true)
    (h : Leads [] (components name) goal) : Requests name file goal
  | relative {directory goal : List (List Char)} {own : List Char}
    (hrelative : name.startsWith "/" = false)
    (hfile : Leads [] (components file) (directory ++ [own]))
    (h : Leads directory (components name) goal) : Requests name file goal

/-- A path under which a file can be kept: it is in normal form, and not the root. -/
structure IsKey (file : String) : Prop where
  normal : normalize file = file
  inside : names file ≠ []

/-- Requests are resolved to paths that lead where the requests lead. -/
theorem requests_iff {file : String} (h : IsKey file) (extension request : String)
    (goal : List (List Char)) :
    Requests (requestedFile extension request) file goal ↔
      goal = names (resolve extension (stripExtension request extension) file) := by
  obtain ⟨own, directory, hnames⟩ : ∃ own directory, names file = directory ++ [own] := by
    obtain ⟨directory, own, hnames⟩ := List.eq_nil_or_concat (names file) |>.resolve_left h.inside
    exact ⟨own, directory, by rw [hnames, List.concat_eq_append]⟩
  have hisName : ∀ m ∈ directory ++ [own], IsName m := hnames ▸ isName_of_mem_names file
  have hparent : parent? file = some (ofNames directory) := by
    rw [← h.normal, normalize, hnames, parent?_ofNames hisName]
  have hresolve : resolve extension (stripExtension request extension) file =
      join (ofNames directory) (requestedFile extension request) := by
    rw [resolve, hparent]
    rfl
  have hdirectory : names (ofNames directory) = directory :=
    names_ofNames fun m hm => hisName m (List.mem_append_left _ hm)
  rw [hresolve]
  generalize requestedFile extension request = name
  cases hname : name.startsWith "/" with
  | true =>
    have hjoin : join (ofNames directory) name = name := by
      simp only [join, hname, Bool.true_or, if_true]
    rw [hjoin, ← leads_components]
    refine ⟨fun hrequests => ?_, .absolute hname⟩
    cases hrequests with
    | absolute _ hleads => exact hleads
    | relative hrelative _ _ => cases hname.symm.trans hrelative
  | false =>
    rw [← leads_join _ hname, hdirectory]
    have hfile : Leads [] (components file) (directory ++ [own]) := by
      rw [leads_components, hnames]
    refine ⟨fun hrequests => ?_, .relative hname hfile⟩
    cases hrequests with
    | absolute habsolute _ => cases hname.symm.trans habsolute
    | relative _ hother hleads =>
      rw [leads_components, hnames] at hother
      obtain ⟨rfl, -⟩ := List.append_inj' hother rfl
      exact hleads

/-! ## Canonical keys -/

/-- The keys under which files are compiled and kept. -/
structure CanonicalKeys : Prop where
  /-- A normal form begins with a slash and is made of names; none of them is empty, a point or two
  points, and only in the root does a slash stand at the end. -/
  proper (path : String) : ∃ names : List (List Char),
    (normalize path).toList = '/' :: ['/'].intercalate names ∧
    (∀ n ∈ names, Enters n ∧ '/' ∉ n) ∧
    ∀ front, (normalize path).toList = front ++ ['/'] → front = []
  idempotent (path : String) : normalize (normalize path) = normalize path
  /-- A path has the same key from a directory and from the key of the directory. -/
  composed (directory path : String) :
    normalize (join directory path) = normalize (join (normalize directory) path)
  /-- Paths have the same key just if they lead to the same place. -/
  lexical (path path' : String) : normalize path = normalize path' ↔
    ∃ goal, Leads [] (components path) goal ∧ Leads [] (components path') goal
  /-- Requests have the same key just if they lead to the same place, in whatever files they are
  made. -/
  requested (o : Options) (file file' : String) (arguments arguments' : List String)
    (request request' : String) : IsKey file → IsKey file' →
    Include.request arguments = .ok request → Include.request arguments' = .ok request' →
    let d := (Engine.ofOptions o).dialect
    (∃ key, d.target arguments file = .ok key ∧ normalize key = key) ∧
    (d.target arguments file = d.target arguments' file' ↔
      ∃ goal, Requests (requestedFile o.extension request) file goal ∧
        Requests (requestedFile o.extension request') file' goal)

/-- Normal forms are the same just if the names are. -/
theorem normalize_eq_iff (path path' : String) :
    normalize path = normalize path' ↔ names path = names path' := by
  refine ⟨fun h => ?_, fun h => by rw [normalize, normalize, h]⟩
  rw [← names_normalize path, h, names_normalize]

/-- **Files have one key each.** -/
theorem keys_are_canonical : CanonicalKeys where
  proper path := by
    have htext : (normalize path).toList = '/' :: joinPieces (names path) := by
      rw [normalize, ofNames, String.toList_ofList]
    refine ⟨names path, ?_, fun n hn => isName_iff.mp (isName_of_mem_names path n hn), ?_⟩
    · rw [htext, joinPieces_eq_intercalate]
    · intro front hend
      rw [htext] at hend
      exact not_slash_of_joinPieces (isName_of_mem_names path) hend
  idempotent := normalize_normalize
  composed := normalize_join
  lexical path path' := by
    rw [normalize_eq_iff]
    simp only [leads_components, exists_eq_left]
  requested o file file' arguments arguments' request request' hfile hfile' hrequest hrequest' := by
    have htarget {file : String} {arguments : List String} {request : String}
        (h : Include.request arguments = .ok request) :
        (Engine.ofOptions o).dialect.target arguments file =
          .ok (normalize (resolve o.extension (stripExtension request o.extension) file)) := by
      rw [Dialect.target, h]
      rfl
    refine ⟨⟨_, htarget hrequest, normalize_normalize _⟩, ?_⟩
    rw [htarget hrequest, htarget hrequest', Except.ok.injEq, normalize_eq_iff]
    simp only [requests_iff hfile, requests_iff hfile', exists_eq_left]

/-- Climbing above the root ends where the root is. -/
example : normalize (resolve "exp" "../../../x" "/a/b.exp") =
    normalize (resolve "exp" "/y/.././/x" "/c.exp") := by
  decide +kernel

end Path
end Stencil
