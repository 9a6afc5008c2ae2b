import Stencil.Proofs.Script.Embedding
import Stencil.Script.Run

/-! # The names that a script begins with

Before its first statement a script has the names of all scripts, and behind them those of its
context, which may replace them.  They are set one by one from a list of entries, each with a value
that is made for it.  Making the other values only adds to the heap, so that a name stands for what
its last entry has made as long as that does not depend on a heap staying small.
-/
namespace Stencil.Script

/-! ## Names -/

/-- Replacing the bindings of a name changes what is found for that name alone. -/
theorem lookup_map_replace (name other : String) (binding : Binding)
    (bindings : List (String × Binding)) :
    (bindings.map fun b => if b.1 == name then (b.1, binding) else b).lookup other =
      if other = name then (bindings.lookup name).map fun _ => binding
      else bindings.lookup other := by
  induction bindings with
  | nil => simp
  | cons b bindings ih =>
    obtain ⟨key, old⟩ := b
    simp only [beq_iff_eq] at ih
    by_cases hkey : key = name
    · subst hkey
      by_cases hother : other = key
      · simp [hother]
      · simp [List.lookup_cons, ih, hother, beq_false_of_ne hother]
    · have hname : (name == key) = false := beq_false_of_ne (Ne.symm hkey)
      by_cases hother : other = key
      · simp [hother, hkey]
      · simp [List.lookup_cons, ih, hkey, hname, beq_false_of_ne hother]

/-- A name that is set is found, and all others are found as before. -/
theorem lookup_bindName (name other : String) (binding : Binding)
    (bindings : List (String × Binding)) :
    (bindName name binding bindings).lookup other =
      if other = name then some binding else bindings.lookup other := by
  unfold bindName
  by_cases hany : bindings.any (·.1 == name) = true
  · obtain ⟨b, hb, hkey⟩ := List.any_eq_true.mp hany
    obtain rfl := eq_of_beq hkey
    have hsome : (bindings.lookup b.1).isSome := by
      rw [List.lookup_isSome_iff]
      exact ⟨b, hb, by simp⟩
    rw [if_pos hany, lookup_map_replace]
    split
    · obtain ⟨old, hold⟩ := Option.isSome_iff_exists.mp hsome
      rw [hold]
      rfl
    · rfl
  · rw [if_neg hany, List.lookup_cons]
    by_cases hother : other = name
    · simp [hother]
    · simp [hother, beq_false_of_ne hother]

namespace Scopes

variable {scopes : Scopes}

/-- What a name stands for in the scope around all others. -/
theorem lookup_globalPlace (scopes : Scopes) (name : String) :
    scopes.lookup globalPlace name =
      ((scopes.bindings globalPlace).lookup name).map Binding.value := by
  have hparent : scopes.parent? globalPlace = none := by
    unfold parent?
    split
    · exact Option.filter_eq_none_iff.mpr fun p _ => by simp [globalPlace]
    · rfl
  rw [lookup, find?]
  cases hname : (scopes.bindings globalPlace).lookup name with
  | some binding => rfl
  | none =>
    simp only
    split
    · rename_i outer houter
      rw [hparent] at houter
      cases houter
    · rfl

/-- Setting a name in the scope around all others. -/
theorem lookup_declare (hsize : 0 < scopes.size) (name other : String) (value : Value)
    (constant : Bool) :
    (scopes.declare globalPlace name value constant).lookup globalPlace other =
      if other = name then some value else scopes.lookup globalPlace other := by
  have hbindings : (scopes.declare globalPlace name value constant).bindings globalPlace =
      bindName name ⟨value, constant⟩ (scopes.bindings globalPlace) := by
    simp [bindings, declare, globalPlace, Array.getD_eq_getD_getElem?, hsize,
      Array.getElem_modify_self]
  rw [lookup_globalPlace, lookup_globalPlace, hbindings, lookup_bindName]
  split <;> rfl

theorem size_declare (place : Nat) (name : String) (value : Value) (constant : Bool) :
    (scopes.declare place name value constant).size = scopes.size := by
  simp [declare]

end Scopes

/-! ## Entries -/

/-- A name that is set before a script begins.  Its value is made without changing anything on the
heap. -/
structure GlobalEntry where
  name : String
  constant : Bool
  make : Heap → Value × Heap
  extends_make (h : Heap) : h.Extends (make h).2

/-- An entry with a value that needs no place on the heap. -/
def GlobalEntry.plain (name : String) (v : Value) (constant : Bool) : GlobalEntry :=
  ⟨name, constant, (v, ·), .refl⟩

/-- An entry with an object. -/
def GlobalEntry.object (name : String) (fields : Fields) : GlobalEntry :=
  ⟨name, false, (·.newObject fields), (·.extends_newObject fields)⟩

/-- An entry with the value of a value of the data format. -/
def GlobalEntry.data (name : String) (json : Json) : GlobalEntry :=
  ⟨name, false, (·.ofJson json), (·.extends_ofJson json)⟩

/-- The names of all scripts. -/
def commonEntries (view : String) : List GlobalEntry :=
  fixedNames.map (fun p => .plain p.1 p.2 true) ++
    (nativeNames.map (fun p => .plain p.1 (.native p.2) false) ++
      (nativeObjects.map (fun p => .object p.1 p.2) ++ [.plain "__view" (.string view) true]))

/-- The names of a context. -/
def contextEntries : Json → List GlobalEntry
  | .object fields => fields.map fun p => .data p.1 p.2
  | _ => []

/-- A context gives a name a value of its own. -/
def Redefines (context : Json) (name : String) : Prop :=
  ∃ fields json, context = .object fields ∧ (name, json) ∈ fields

theorem redefines_iff (context : Json) (name : String) :
    Redefines context name ↔ ∃ entry ∈ contextEntries context, entry.name = name := by
  cases context with
  | object fields => simp [Redefines, contextEntries, GlobalEntry.data]
  | _ => simp [Redefines, contextEntries]

/-- No two names of all scripts are the same. -/
theorem nodup_commonEntries (view : String) : ((commonEntries view).map (·.name)).Nodup := by
  have hnames : (commonEntries view).map (·.name) =
      fixedNames.map (·.1) ++ nativeNames.map (·.1) ++ nativeObjects.map (·.1) ++ ["__view"] := rfl
  rw [hnames]
  decide

/-! ## Machines at the beginning -/

/-- Sets the name of an entry. -/
def Machine.set (m : Machine) (entry : GlobalEntry) : Machine :=
  { m with
    heap := (entry.make m.heap).2
    scopes := m.scopes.declare Scopes.globalPlace entry.name (entry.make m.heap).1 entry.constant }

/-- The machine that a script begins on. -/
def Machine.begun (globals : Globals) (clock : Clock) : Machine :=
  (contextEntries globals.context).foldl Machine.set
    ((commonEntries globals.view).foldl Machine.set (.start clock))

/-- A loop that sets the name of an entry for each member of a list. -/
theorem forIn_set {α : Type} {list : List α} {round : α → PUnit → Exec (ForInStep PUnit)}
    (entry : α → GlobalEntry) (h : ∀ a m, round a ⟨⟩ m = .ok (.yield ⟨⟩) (m.set (entry a)))
    (m : Machine) :
    forIn list ⟨⟩ round m = .ok ⟨⟩ ((list.map entry).foldl Machine.set m) := by
  induction list generalizing m with
  | nil => rfl
  | cons a list ih =>
    rw [List.forIn_cons, List.map_cons, List.foldl_cons, ← ih]
    show EStateM.bind (round a ⟨⟩) _ m = _
    simp only [EStateM.bind, h]

theorem bind_eq_ok {α β : Type} {step : Exec α} {next : α → Exec β} {a : α} {m m' : Machine}
    (h : step m = .ok a m') : (step >>= next) m = next a m' := by
  show EStateM.bind step next m = _
  simp only [EStateM.bind, h]

/-- **A script begins with the names of all entries set, one after the other.** -/
theorem install_start (globals : Globals) (clock : Clock) :
    install globals (.start clock) = .ok () (.begun globals clock) := by
  have hcommon : (commonEntries globals.view).foldl Machine.set (.start clock) = _ :=
    List.foldl_append
  rw [List.foldl_append, List.foldl_append] at hcommon
  unfold install Machine.begun
  rw [hcommon, bind_eq_ok (forIn_set (fun p => .plain p.1 p.2 true) (fun _ _ => rfl) _),
    bind_eq_ok (forIn_set (fun p => .plain p.1 (.native p.2) false) (fun _ _ => rfl) _),
    bind_eq_ok (forIn_set (fun p => .object p.1 p.2) (fun _ _ => rfl) _)]
  cases globals.context with
  | object fields =>
    exact bind_eq_ok (forIn_set (fun p : String × Json => .data p.1 p.2) (fun _ _ => rfl) _)
  | _ => rfl

/-- A machine whose script has not begun. -/
structure Machine.Begins (clock : Clock) (m : Machine) : Prop where
  scopes : 0 < m.scopes.size
  output : m.output = ""
  clock : m.clock = clock

variable {clock : Clock} {m : Machine}

theorem begins_start (clock : Clock) : (Machine.start clock).Begins clock :=
  ⟨Nat.one_pos, rfl, rfl⟩

theorem Machine.Begins.foldl_set (hm : m.Begins clock) (entries : List GlobalEntry) :
    (entries.foldl Machine.set m).Begins clock := by
  induction entries generalizing m with
  | nil => exact hm
  | cons entry entries ih =>
    exact ih ⟨by rw [Machine.set, Scopes.size_declare]; exact hm.scopes, hm.output, hm.clock⟩

theorem begins_begun (globals : Globals) (clock : Clock) :
    (Machine.begun globals clock).Begins clock :=
  ((begins_start clock).foldl_set _).foldl_set _

/-- What a script begins with does not depend on the clock. -/
theorem foldl_set_clock (entries : List GlobalEntry) (later : Clock) :
    entries.foldl Machine.set { m with clock := later } =
      { entries.foldl Machine.set m with clock := later } := by
  induction entries generalizing m with
  | nil => rfl
  | cons entry entries ih => exact @ih (m.set entry)

theorem begun_clock (globals : Globals) (clock later : Clock) :
    { Machine.begun globals clock with clock := later } = Machine.begun globals later := by
  rw [Machine.begun, Machine.begun, ← foldl_set_clock, ← foldl_set_clock]
  rfl

/-! ## What names stand for -/

/-- In the scope around all others a name stands for a value of some kind. -/
def Machine.Offers (m : Machine) (name : String) (kind : Heap → Value → Prop) : Prop :=
  ∃ v, m.scopes.lookup Scopes.globalPlace name = some v ∧ kind m.heap v

/-- A value of the kind stays one when other values are made. -/
def KeptByGrowth (kind : Heap → Value → Prop) : Prop :=
  ∀ (h h' : Heap) (v : Value), h.Extends h' → kind h v → kind h' v

variable {kind : Heap → Value → Prop} {name : String} {entry : GlobalEntry}

theorem offers_set (hm : 0 < m.scopes.size)
    (hmade : kind (entry.make m.heap).2 (entry.make m.heap).1) :
    (m.set entry).Offers entry.name kind :=
  ⟨_, by rw [Machine.set, Scopes.lookup_declare hm, if_pos rfl], hmade⟩

theorem Machine.Offers.set (hm : 0 < m.scopes.size) (hkept : KeptByGrowth kind)
    (hne : name ≠ entry.name) (h : m.Offers name kind) : (m.set entry).Offers name kind := by
  obtain ⟨v, hname, hkind⟩ := h
  exact ⟨v, by rw [Machine.set, Scopes.lookup_declare hm, if_neg hne, hname],
    hkept _ _ _ (entry.extends_make m.heap) hkind⟩

/-- A name stands for a value of a kind if it did before or has an entry, and all its entries make
such values. -/
theorem offers_foldl (hkept : KeptByGrowth kind) {entries : List GlobalEntry} (hm : m.Begins clock)
    (hmade : ∀ entry ∈ entries, entry.name = name → ∀ h, kind (entry.make h).2 (entry.make h).1)
    (h : m.Offers name kind ∨ ∃ entry ∈ entries, entry.name = name) :
    (entries.foldl Machine.set m).Offers name kind := by
  induction entries generalizing m with
  | nil => simpa using h
  | cons entry entries ih =>
    rw [List.forall_mem_cons] at hmade
    refine ih (hm.foldl_set [entry]) hmade.2 ?_
    by_cases hname : entry.name = name
    · exact .inl (hname ▸ offers_set hm.scopes (hmade.1 hname _))
    · obtain hoffers | ⟨other, hother, hsame⟩ := h
      · exact .inl (hoffers.set hm.scopes hkept (Ne.symm hname))
      · obtain rfl | hother := List.mem_cons.mp hother
        · exact absurd hsame hname
        · exact .inr ⟨other, hother, hsame⟩

/-- **A script begins with each name of all scripts**, unless its context redefines it. -/
theorem begun_offers_common {globals : Globals} (hentry : entry ∈ commonEntries globals.view)
    (hcontext : ¬ Redefines globals.context entry.name) (hkept : KeptByGrowth kind)
    (hmade : ∀ h, kind (entry.make h).2 (entry.make h).1) (clock : Clock) :
    (Machine.begun globals clock).Offers entry.name kind := by
  have hfirst : ((commonEntries globals.view).foldl Machine.set (.start clock)).Offers entry.name
      kind := by
    refine offers_foldl hkept (begins_start clock) ?_ (.inr ⟨entry, hentry, rfl⟩)
    intro other hother hsame
    obtain rfl := List.inj_on_of_nodup_map (nodup_commonEntries _) hother hentry hsame
    exact hmade
  rw [redefines_iff] at hcontext
  refine offers_foldl hkept ((begins_start clock).foldl_set _) ?_ (.inl hfirst)
  exact fun other hother hsame => absurd ⟨other, hother, hsame⟩ hcontext

/-- A function with a name of its own is found under it. -/
theorem begun_offers_native {globals : Globals} {f : Native} (hname : (name, f) ∈ nativeNames)
    (hcontext : ¬ Redefines globals.context name) (clock : Clock) :
    (Machine.begun globals clock).Offers name fun _ v => v = .native f := by
  have hentry : GlobalEntry.plain name (.native f) false ∈ commonEntries globals.view :=
    List.mem_append_right _ (List.mem_append_left _ (List.mem_map_of_mem hname))
  exact begun_offers_common hentry hcontext (fun _ _ _ _ h => h) (fun _ => rfl) clock

/-- An object with functions is found under its name. -/
theorem begun_offers_object {globals : Globals} {fields : Fields}
    (hname : (name, fields) ∈ nativeObjects) (hcontext : ¬ Redefines globals.context name)
    (clock : Clock) : (Machine.begun globals clock).Offers name fun h v =>
      ∃ place, v = .object place ∧ h.objects[place]? = some fields := by
  have hentry : GlobalEntry.object name fields ∈ commonEntries globals.view :=
    List.mem_append_right _ (List.mem_append_right _ (List.mem_append_left _
      (List.mem_map_of_mem hname)))
  refine begun_offers_common hentry hcontext ?_ ?_ clock
  · rintro h h' v hext ⟨place, rfl, hplace⟩
    exact ⟨place, rfl, hext.objects hplace⟩
  · exact fun h => ⟨_, rfl, by simp [GlobalEntry.object, Heap.newObject]⟩

/-- **A script begins with the names of its context**, each with the value of its field. -/
theorem begun_offers_context {globals : Globals} {fields : List (String × Json)} {json : Json}
    (hobject : globals.context = .object fields) (hnames : (fields.map (·.1)).Nodup)
    (hfield : (name, json) ∈ fields) (hkept : KeptByGrowth kind)
    (hmade : ∀ h : Heap, kind (h.ofJson json).2 (h.ofJson json).1) (clock : Clock) :
    (Machine.begun globals clock).Offers name kind := by
  have hentries : contextEntries globals.context = fields.map fun p => .data p.1 p.2 := by
    rw [hobject, contextEntries]
  rw [Machine.begun, hentries]
  refine offers_foldl hkept ((begins_start clock).foldl_set _) ?_
    (.inr ⟨_, List.mem_map_of_mem hfield, rfl⟩)
  rintro entry hentry hname
  obtain ⟨other, hother, rfl⟩ := List.mem_map.mp hentry
  obtain rfl := List.inj_on_of_nodup_map hnames hother hfield hname
  exact hmade

end Stencil.Script
