import Mathlib.Data.List.DropRight
import Stencil.Path

/-! # Paths

A path and its normal form lead through the same names, and a normal form is determined by them:
paths in normal form that name the same entry are the same.  The segments of a request are joined to
the same path however they are grouped, since the separators that meet at a seam are a single slash
whatever has been joined before.
-/
namespace Stencil
namespace Path

/-! ## Pieces -/

theorem pieces_slash (cs : List Char) : pieces ('/' :: cs) = [] :: pieces cs := rfl

theorem pieces_ne_nil (cs : List Char) : pieces cs ≠ [] := by
  cases cs with
  | nil => simp [pieces]
  | cons c cs =>
    rw [pieces, List.foldr_cons]
    split
    · simp
    · split <;> simp

/-- A character that is no slash belongs to the first piece. -/
theorem pieces_cons_of_ne {c : Char} (hc : c ≠ '/') (cs : List Char) :
    ∃ piece rest, pieces cs = piece :: rest ∧ pieces (c :: cs) = (c :: piece) :: rest := by
  obtain ⟨piece, rest, hcs⟩ := List.exists_cons_of_ne_nil (pieces_ne_nil cs)
  refine ⟨piece, rest, hcs, ?_⟩
  rw [pieces] at hcs ⊢
  rw [List.foldr_cons, if_neg hc, hcs]

theorem not_mem_slash_of_mem_pieces (cs : List Char) : ∀ piece ∈ pieces cs, '/' ∉ piece := by
  induction cs with
  | nil => simp [pieces]
  | cons c cs ih =>
    intro piece hpiece
    by_cases hc : c = '/'
    · subst hc
      rw [pieces_slash] at hpiece
      rcases List.mem_cons.mp hpiece with rfl | hpiece
      · exact List.not_mem_nil
      · exact ih piece hpiece
    · obtain ⟨first, rest, hcs, hccs⟩ := pieces_cons_of_ne hc cs
      rw [hccs] at hpiece
      rw [hcs] at ih
      rcases List.mem_cons.mp hpiece with rfl | hpiece
      · intro hmem
        rcases List.mem_cons.mp hmem with heq | hmem
        · exact hc heq.symm
        · exact ih first List.mem_cons_self hmem
      · exact ih piece (List.mem_cons_of_mem _ hpiece)

theorem pieces_append {piece : List Char} (h : '/' ∉ piece) (cs : List Char) :
    pieces piece = [piece] ∧ pieces (piece ++ '/' :: cs) = piece :: pieces cs := by
  induction piece with
  | nil => exact ⟨rfl, rfl⟩
  | cons c piece ih =>
    obtain ⟨hc, hpiece⟩ : '/' ≠ c ∧ '/' ∉ piece := by simpa using h
    obtain ⟨hone, hmany⟩ := ih hpiece
    refine ⟨?_, ?_⟩
    · obtain ⟨first, rest, hfirst, hcons⟩ := pieces_cons_of_ne (Ne.symm hc) piece
      rw [hone] at hfirst
      obtain ⟨rfl, rfl⟩ := List.cons.inj hfirst
      exact hcons
    · obtain ⟨first, rest, hfirst, hcons⟩ := pieces_cons_of_ne (Ne.symm hc) (piece ++ '/' :: cs)
      rw [hmany] at hfirst
      obtain ⟨rfl, rfl⟩ := List.cons.inj hfirst
      exact hcons

theorem pieces_joinPieces {ns : List (List Char)} (hne : ns ≠ []) (h : ∀ n ∈ ns, '/' ∉ n) :
    pieces (joinPieces ns) = ns := by
  induction ns with
  | nil => exact absurd rfl hne
  | cons n ns ih =>
    have hn := h n List.mem_cons_self
    cases ns with
    | nil => exact (pieces_append hn []).1
    | cons m ms =>
      rw [joinPieces, (pieces_append hn _).2,
        ih (by simp) fun x hx => h x (List.mem_cons_of_mem _ hx)]
      simp

/-! ## Names -/

/-- A name that walking along a path can leave behind. -/
def IsName (n : List Char) : Prop := '/' ∉ n ∧ isIdle n = false ∧ n ≠ ['.', '.']

theorem isName_of_mem_walk {names : List (List Char)} {piece : List Char} (hpiece : '/' ∉ piece)
    (h : ∀ n ∈ names, IsName n) : ∀ n ∈ walk names piece, IsName n := by
  unfold walk
  split
  · exact h
  · rename_i hidle
    split
    · exact fun n hn => h n (List.mem_of_mem_tail hn)
    · rename_i hdots
      intro n hn
      rcases List.mem_cons.mp hn with rfl | hn
      · exact ⟨hpiece, by simpa using hidle, by simpa using hdots⟩
      · exact h n hn

theorem isName_of_mem_names (path : String) : ∀ n ∈ names path, IsName n := by
  -- the names that are left behind so far are names, whatever they are
  have hwalk : ∀ (ps acc : List (List Char)), (∀ p ∈ ps, '/' ∉ p) → (∀ n ∈ acc, IsName n) →
      ∀ n ∈ ps.foldl walk acc, IsName n := by
    intro ps
    induction ps with
    | nil => exact fun acc _ hacc => hacc
    | cons p ps ih =>
      intro acc hps hacc
      exact ih (walk acc p) (fun q hq => hps q (List.mem_cons_of_mem _ hq))
        (isName_of_mem_walk (hps p List.mem_cons_self) hacc)
  intro n hn
  exact hwalk _ [] (not_mem_slash_of_mem_pieces _) (by simp) n (List.mem_reverse.mp hn)

theorem foldl_walk_of_isName {ns acc : List (List Char)} (h : ∀ n ∈ ns, IsName n) :
    ns.foldl walk acc = ns.reverse ++ acc := by
  induction ns generalizing acc with
  | nil => rfl
  | cons n ns ih =>
    obtain ⟨-, hidle, hdots⟩ := h n List.mem_cons_self
    have hstep : walk acc n = n :: acc := by
      rw [walk, if_neg (by simp [hidle]), if_neg (by simpa using hdots)]
    rw [List.foldl_cons, hstep, ih fun m hm => h m (List.mem_cons_of_mem _ hm),
      List.reverse_cons, List.append_assoc, List.singleton_append]

theorem names_ofNames {ns : List (List Char)} (h : ∀ n ∈ ns, IsName n) :
    names (ofNames ns) = ns := by
  rw [names, ofNames, String.toList_ofList, pieces_slash, List.foldl_cons]
  show (List.foldl walk [] (pieces (joinPieces ns))).reverse = ns
  cases ns with
  | nil => rfl
  | cons n ns =>
    rw [pieces_joinPieces (by simp) fun m hm => (h m hm).1, foldl_walk_of_isName h,
      List.append_nil, List.reverse_reverse]

/-- A path and its normal form name the same entry. -/
theorem names_normalize (path : String) : names (normalize path) = names path :=
  names_ofNames (isName_of_mem_names path)

theorem normalize_normalize (path : String) : normalize (normalize path) = normalize path := by
  rw [normalize, names_normalize, normalize]

/-- Normal forms that name the same entry are the same. -/
theorem eq_of_names_eq {p q : String} (hp : normalize p = p) (hq : normalize q = q)
    (h : names p = names q) : p = q := by
  rw [← hp, ← hq, normalize, normalize, h]

/-! ## Segments -/

theorem isSeparator_slash : isSeparator '/' = true := by decide

/-- What is left of a text with a slash inside, without the separators at its end. -/
theorem rdropWhile_slash (front cs : List Char) :
    (front ++ '/' :: cs).rdropWhile isSeparator =
      if cs.rdropWhile isSeparator = [] then front.rdropWhile isSeparator
      else front ++ '/' :: cs.rdropWhile isSeparator := by
  induction cs using List.reverseRecOn with
  | nil => rw [List.rdropWhile_concat_pos _ _ _ isSeparator_slash, List.rdropWhile_nil, if_pos rfl]
  | append_singleton cs c ih =>
    rw [← List.cons_append, ← List.append_assoc]
    by_cases hc : isSeparator c = true
    · rw [List.rdropWhile_concat_pos _ _ _ hc, List.rdropWhile_concat_pos _ _ _ hc, ih]
    · rw [List.rdropWhile_concat_neg _ _ _ hc, List.rdropWhile_concat_neg _ _ _ hc]
      simp

/-- What is left of it without the separators at its beginning. -/
theorem dropWhile_slash (cs behind : List Char) :
    (cs ++ '/' :: behind).dropWhile isSeparator =
      if cs.dropWhile isSeparator = [] then behind.dropWhile isSeparator
      else cs.dropWhile isSeparator ++ '/' :: behind := by
  rw [List.dropWhile_append]
  simp [isSeparator_slash]

/-- It does not matter at which end separators are dropped first. -/
theorem rdropWhile_dropWhile (cs : List Char) :
    (cs.dropWhile isSeparator).rdropWhile isSeparator =
      (cs.rdropWhile isSeparator).dropWhile isSeparator := by
  induction cs using List.reverseRecOn with
  | nil => rfl
  | append_singleton cs c ih =>
    rw [List.dropWhile_append]
    by_cases hc : isSeparator c = true
    · rw [List.rdropWhile_concat_pos _ _ _ hc, ← ih]
      cases hcs : cs.dropWhile isSeparator with
      | nil => simp [hc]
      | cons d ds => exact List.rdropWhile_concat_pos _ _ _ hc
    · rw [List.rdropWhile_concat_neg _ _ _ hc, List.dropWhile_append]
      cases hcs : cs.dropWhile isSeparator with
      | nil => simp [hc]
      | cons d ds => exact List.rdropWhile_concat_neg _ _ _ hc

theorem appendSegment_of_ne_nil {request segment : List Char} (hrequest : request ≠ [])
    (hsegment : segment ≠ []) : appendSegment request segment =
      request.rdropWhile isSeparator ++ '/' :: segment.dropWhile isSeparator := by
  simp [appendSegment, hrequest, hsegment, List.rdropWhile]

theorem appendSegment_nil (request : List Char) : appendSegment request [] = request := rfl

theorem nil_appendSegment (segment : List Char) : appendSegment [] segment = segment := by
  cases segment <;> rfl

/-- **Joining segments is associative**, whatever separators they have and if they have nothing
else. -/
theorem appendSegment_assoc (a b c : List Char) :
    appendSegment (appendSegment a b) c = appendSegment a (appendSegment b c) := by
  by_cases ha : a = []
  · rw [ha, nil_appendSegment, nil_appendSegment]
  by_cases hb : b = []
  · rw [hb, nil_appendSegment, appendSegment_nil]
  by_cases hc : c = []
  · rw [hc, appendSegment_nil, appendSegment_nil]
  rw [appendSegment_of_ne_nil ha hb, appendSegment_of_ne_nil hb hc,
    appendSegment_of_ne_nil (by simp) hc, appendSegment_of_ne_nil ha (by simp),
    rdropWhile_slash, dropWhile_slash, rdropWhile_dropWhile]
  -- of a middle segment that is all separators, nothing but the seam is left
  by_cases hmiddle : (b.rdropWhile isSeparator).dropWhile isSeparator = []
  · rw [if_pos hmiddle, if_pos hmiddle, List.rdropWhile_idempotent, List.dropWhile_idempotent]
  · rw [if_neg hmiddle, if_neg hmiddle, List.append_assoc, List.cons_append]

/-- The segments behind the first one are joined to it as one. -/
theorem foldl_appendSegment (request : List Char) (segments : List String) :
    segments.foldl (fun request s => appendSegment request s.toList) request =
      appendSegment request (joinSegments segments).toList := by
  induction segments generalizing request with
  | nil => rfl
  | cons s segments ih =>
    rw [joinSegments, List.foldl_cons, List.foldl_cons, ih, ih, nil_appendSegment,
      String.toList_ofList, appendSegment_assoc]

/-- Lists of segments are joined by joining what each of them is joined to. -/
theorem joinSegments_append (xs ys : List String) :
    joinSegments (xs ++ ys) = joinSegments [joinSegments xs, joinSegments ys] := by
  rw [joinSegments, List.foldl_append, foldl_appendSegment]
  simp [joinSegments, nil_appendSegment]

theorem joinSegments_singleton (s : String) : joinSegments [s] = s := by
  simp [joinSegments, nil_appendSegment]

theorem joinSegments_cons (s : String) (segments : List String) :
    joinSegments (s :: segments) = joinSegments [s, joinSegments segments] := by
  rw [← List.singleton_append, joinSegments_append, joinSegments_singleton]

/-- **However segments are grouped, they are joined to the same path.** -/
theorem joinSegments_flatten (groups : List (List String)) :
    joinSegments groups.flatten = joinSegments (groups.map joinSegments) := by
  induction groups with
  | nil => rfl
  | cons segments groups ih =>
    rw [List.flatten_cons, joinSegments_append, ih, List.map_cons]
    exact (joinSegments_cons _ _).symm

/-- A segment of separators is one more place where they meet. -/
example : joinSegments ["a/", "\\//", "", "/b"] = "a/b" := by decide

end Path
end Stencil
