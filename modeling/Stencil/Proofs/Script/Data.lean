import Stencil.Proofs.Number.Whole
import Stencil.Proofs.Script.Embedding
import Stencil.Proofs.Script.Writing

/-! # Data that a script is given

Exact data goes into a script and comes out of it as it was, but that the fields of all objects are
in ascending order of their names, which is the order of data that a host keeps in maps.  A script
that writes the JSON text of an entry of its context therefore ends with the text of what the host
has passed.
-/
namespace Stencil

namespace Json

/-! ## The order of fields -/

mutual

/-- Whether the names of all objects are in ascending order, with none twice. -/
def inOrder : Json → Bool
  | array items => itemsInOrder items
  | object fields => (fields.map (·.1)).Pairwise (· < ·) && fieldsInOrder fields
  | _ => true

/-- `inOrder` of every item. -/
def itemsInOrder : List Json → Bool
  | [] => true
  | item :: rest => inOrder item && itemsInOrder rest

/-- `inOrder` of the value of every field. -/
def fieldsInOrder : List (String × Json) → Bool
  | [] => true
  | (_, value) :: rest => inOrder value && fieldsInOrder rest

end

section

variable {α : Type} {fields : List (String × α)}

theorem before_iff (a b : String × α) : (!decide (b.1 < a.1)) = true ↔ a.1 ≤ b.1 := by
  rw [Bool.not_eq_true', decide_eq_false_iff_not, not_lt]

/-- A field behind the ones that are kept, last first; it takes the place of one of its name. -/
def keepField (kept : List (String × α)) (field : String × α) : List (String × α) :=
  match kept with
  | last :: rest => if last.1 == field.1 then field :: rest else field :: kept
  | [] => [field]

theorem sortFields_eq_foldl (fields : List (String × α)) : sortFields fields =
    ((fields.mergeSort fun a b => !(b.1 < a.1)).foldl keepField []).reverse := rfl

theorem keepField_of_ne {kept : List (String × α)} {field : String × α}
    (h : ∀ last ∈ kept, last.1 ≠ field.1) : keepField kept field = field :: kept := by
  cases kept with
  | nil => rfl
  | cons last rest => simp [keepField, h last List.mem_cons_self]

/-- Fields with different names are all kept. -/
theorem foldl_keepField {kept : List (String × α)}
    (hnames : (fields.map (·.1)).Nodup) (hkept : ∀ last ∈ kept, last.1 ∉ fields.map (·.1)) :
    fields.foldl keepField kept = fields.reverse ++ kept := by
  induction fields generalizing kept with
  | nil => rfl
  | cons field fields ih =>
    rw [List.map_cons, List.nodup_cons] at hnames
    have hfirst : ∀ last ∈ kept, last.1 ≠ field.1 := fun last hlast hsame =>
      hkept last hlast (by simp [hsame])
    have hrest : ∀ last ∈ field :: kept, last.1 ∉ fields.map (·.1) := by
      intro last hlast
      obtain rfl | hlast := List.mem_cons.mp hlast
      · exact hnames.1
      · exact fun hmem => hkept last hlast (List.mem_cons_of_mem _ hmem)
    rw [List.foldl_cons, keepField_of_ne hfirst, ih hnames.2 hrest]
    simp

theorem sortFields_eq (hnames : (fields.map (·.1)).Nodup) :
    sortFields fields = fields.mergeSort fun a b => !(b.1 < a.1) := by
  have hsorted : ((fields.mergeSort fun a b => !(b.1 < a.1)).map (·.1)).Nodup :=
    ((List.mergeSort_perm fields _).map (·.1)).nodup_iff.mpr hnames
  rw [sortFields_eq_foldl, foldl_keepField hsorted (by simp)]
  simp

theorem sortFields_perm (hnames : (fields.map (·.1)).Nodup) : (sortFields fields).Perm fields := by
  rw [sortFields_eq hnames]
  exact List.mergeSort_perm _ _

/-- Fields with different names come to stand in ascending order. -/
theorem pairwise_sortFields (hnames : (fields.map (·.1)).Nodup) :
    ((sortFields fields).map (·.1)).Pairwise (· < ·) := by
  have hdistinct := ((sortFields_perm hnames).map (·.1)).nodup_iff.mpr hnames
  have hsorted : ((sortFields fields).map (·.1)).Pairwise (· ≤ ·) := by
    rw [sortFields_eq hnames, List.pairwise_map]
    refine (List.pairwise_mergeSort ?_ ?_ fields).imp fun h => (before_iff _ _).mp h
    · simp only [before_iff]
      exact fun a b c => le_trans
    · simp only [Bool.or_eq_true, before_iff]
      exact fun a b => le_total a.1 b.1
  exact (hsorted.and hdistinct).imp fun h => lt_of_le_of_ne h.1 h.2

/-- Fields in ascending order stay as they are. -/
theorem sortFields_of_pairwise (h : (fields.map (·.1)).Pairwise (· < ·)) :
    sortFields fields = fields := by
  have hnames : (fields.map (·.1)).Nodup := h.imp fun hlt => ne_of_lt hlt
  rw [sortFields_eq hnames]
  exact List.mergeSort_of_pairwise
    ((List.pairwise_map.mp h).imp fun hlt => (before_iff _ _).mpr hlt.le)

end

/-! ## Canonical forms -/

theorem map_canonicalFields (fields : List (String × Json)) :
    (canonicalFields fields).map (·.1) = fields.map (·.1) := by
  induction fields with
  | nil => rfl
  | cons field rest ih => simp [canonicalFields, ih]

mutual

/-- A value in order is its own canonical form. -/
theorem canonical_of_inOrder (json : Json) (h : json.inOrder = true) : json.canonical = json := by
  cases json with
  | array items => rw [canonical, canonicalItems_of_inOrder items h]
  | object fields =>
    obtain ⟨hnames, hfields⟩ := Bool.and_eq_true_iff.mp h
    rw [canonical, canonicalFields_of_inOrder fields hfields,
      sortFields_of_pairwise (of_decide_eq_true hnames)]
  | _ => rfl

theorem canonicalItems_of_inOrder (items : List Json) (h : itemsInOrder items = true) :
    canonicalItems items = items := by
  cases items with
  | nil => rfl
  | cons item rest =>
    obtain ⟨hitem, hrest⟩ := Bool.and_eq_true_iff.mp h
    rw [canonicalItems, canonical_of_inOrder item hitem, canonicalItems_of_inOrder rest hrest]

theorem canonicalFields_of_inOrder (fields : List (String × Json))
    (h : fieldsInOrder fields = true) : canonicalFields fields = fields := by
  cases fields with
  | nil => rfl
  | cons field rest =>
    obtain ⟨name, value⟩ := field
    obtain ⟨hvalue, hrest⟩ := Bool.and_eq_true_iff.mp h
    rw [canonicalFields, canonical_of_inOrder value hvalue, canonicalFields_of_inOrder rest hrest]

end

theorem fieldsInOrder_iff (fields : List (String × Json)) :
    fieldsInOrder fields = true ↔ ∀ field ∈ fields, field.2.inOrder = true := by
  induction fields with
  | nil => simp [fieldsInOrder]
  | cons field rest ih => simp [fieldsInOrder, ih]

mutual

/-- The canonical form of exact data is in order. -/
theorem inOrder_canonical (json : Json) (h : json.isExact = true) :
    json.canonical.inOrder = true := by
  cases json with
  | array items => exact itemsInOrder_canonical items h
  | object fields =>
    obtain ⟨hnames, hexact⟩ := Bool.and_eq_true_iff.mp h
    have hnames : ((canonicalFields fields).map (·.1)).Nodup := by
      rw [map_canonicalFields]
      exact of_decide_eq_true hnames
    have hfields := fieldsInOrder_canonical fields hexact
    rw [canonical, inOrder, Bool.and_eq_true, decide_eq_true_eq, fieldsInOrder_iff]
    refine ⟨pairwise_sortFields hnames, fun field hfield => ?_⟩
    exact hfields field ((sortFields_perm hnames).mem_iff.mp hfield)
  | _ => rfl

theorem itemsInOrder_canonical (items : List Json) (h : exactItems items = true) :
    itemsInOrder (canonicalItems items) = true := by
  cases items with
  | nil => rfl
  | cons item rest =>
    obtain ⟨hitem, hrest⟩ := Bool.and_eq_true_iff.mp h
    exact Bool.and_eq_true_iff.mpr
      ⟨inOrder_canonical item hitem, itemsInOrder_canonical rest hrest⟩

theorem fieldsInOrder_canonical (fields : List (String × Json)) (h : exactFields fields = true) :
    ∀ field ∈ canonicalFields fields, field.2.inOrder = true := by
  cases fields with
  | nil => simp [canonicalFields]
  | cons field rest =>
    obtain ⟨name, value⟩ := field
    obtain ⟨hvalue, hrest⟩ := Bool.and_eq_true_iff.mp h
    rw [canonicalFields, List.forall_mem_cons]
    exact ⟨inOrder_canonical value hvalue, fieldsInOrder_canonical rest hrest⟩

end

/-! ## Containers -/

/-- Whether a value is an array or an object. -/
def IsContainer (json : Json) : Prop :=
  (∃ items, json = .array items) ∨ ∃ fields, json = .object fields

/-- A context has a field, and no two fields of one name. -/
def HasField (context : Json) (name : String) (json : Json) : Prop :=
  ∃ fields, context = .object fields ∧ (fields.map (·.1)).Nodup ∧ (name, json) ∈ fields

end Json

namespace Script

/-! ## Numbers -/

/-- A whole number below `2 ^ 53` is written as it is. -/
theorem Heap.numberJson_ofInt {n : Int} (hn : n.natAbs < 2 ^ 53) :
    numberJson (Float.ofInt n) = .int n := by
  have hvalue := value?_ofInt hn
  have htruncated := Binary.truncated_of_value? hvalue
  rw [Binary.towardZero_intCast] at htruncated
  have hwhole := Binary.isWhole_of_value? hvalue
  unfold numberJson
  cases hbits : Binary.ofFloat (Float.ofInt n) with
  | nan => rw [hbits] at hvalue; cases hvalue
  | infinite => rw [hbits] at hvalue; cases hvalue
  | finite negative m q =>
    rw [hbits] at htruncated hwhole
    have hsize : (Binary.finite negative m q).wholePart = n.natAbs := by
      rw [← htruncated, Binary.truncated]
      split <;> simp
    have hlimit : n.natAbs < Nat.pow 2 53 := hn
    simp only [hwhole, hsize, htruncated, Bool.true_and, decide_eq_true_eq, if_pos hlimit]

/-! ## Coming out of a script -/

namespace Heap

variable {h : Heap}

mutual

/-- What stands for exact data has the data as its JSON form. -/
theorem jsonWithin_of_represents {json : Json} {v : Value} {depth : Nat}
    (hjson : h.Represents json v) (hexact : json.isExact = true) (hdepth : json.parts < depth) :
    h.jsonWithin depth v = some json.canonical := by
  obtain ⟨depth, rfl⟩ := Nat.exists_eq_add_of_le' (Nat.one_le_of_lt hdepth)
  cases hjson with
  | null => rfl
  | bool b => rfl
  | int n => exact congrArg some (numberJson_ofInt (of_decide_eq_true hexact))
  | string s => rfl
  | @array items values place hplace hitems =>
    have hdepth : Json.partsOfItems items < depth := Nat.lt_of_succ_lt_succ hdepth
    have harray : (h.array place).toList = values := by
      simp [Heap.array, Array.getD_eq_getD_getElem?, hplace]
    rw [jsonWithin, harray, jsonWithin_of_representsItems hitems hexact hdepth, Json.canonical]
  | @object fields values place hplace hfields =>
    have hdepth : Json.partsOfFields fields < depth := Nat.lt_of_succ_lt_succ hdepth
    have hobject : h.object place = values := by
      simp [Heap.object, Array.getD_eq_getD_getElem?, hplace]
    obtain ⟨-, hexact⟩ := Bool.and_eq_true_iff.mp hexact
    rw [jsonWithin, hobject, jsonWithin_of_representsFields hfields hexact hdepth, Json.canonical]

theorem jsonWithin_of_representsItems {items : List Json} {values : List Value} {depth : Nat}
    (hitems : h.RepresentsItems items values) (hexact : Json.exactItems items = true)
    (hdepth : Json.partsOfItems items < depth) :
    values.map (fun item => (h.jsonWithin depth item).getD .null) = Json.canonicalItems items := by
  cases hitems with
  | nil => rfl
  | cons hitem hrest =>
    obtain ⟨hexact, hexact'⟩ := Bool.and_eq_true_iff.mp hexact
    rw [Json.partsOfItems] at hdepth
    rw [List.map_cons, jsonWithin_of_represents hitem hexact (by omega),
      jsonWithin_of_representsItems hrest hexact' (by omega), Json.canonicalItems]
    rfl

theorem jsonWithin_of_representsFields {fields : List (String × Json)} {values : Fields}
    {depth : Nat} (hfields : h.RepresentsFields fields values)
    (hexact : Json.exactFields fields = true) (hdepth : Json.partsOfFields fields < depth) :
    values.filterMap (fun (key, item) => (h.jsonWithin depth item).map (key, ·)) =
      Json.canonicalFields fields := by
  cases hfields with
  | nil => rfl
  | cons name hfield hrest =>
    obtain ⟨hexact, hexact'⟩ := Bool.and_eq_true_iff.mp hexact
    rw [Json.partsOfFields] at hdepth
    have hvalue := jsonWithin_of_represents hfield hexact (by omega : _ < depth)
    rw [List.filterMap_cons, jsonWithin_of_representsFields hrest hexact' (by omega),
      Json.canonicalFields]
    simp only [hvalue, Option.map_some]

end

theorem json?_of_represents {json : Json} {v : Value} (hjson : h.Represents json v)
    (hexact : json.isExact = true) (hsize : json.parts ≤ h.size) :
    h.json? v = some json.canonical :=
  jsonWithin_of_represents hjson hexact (Nat.lt_succ_of_le hsize)

/-- **Exact data comes out of a script as it went in**, in order. -/
theorem json?_ofJson (h : Heap) {json : Json} (hexact : json.isExact = true) :
    (h.ofJson json).2.json? (h.ofJson json).1 = some json.canonical := by
  refine json?_of_represents (represents_ofJson h json hexact) hexact ?_
  rw [size_ofJson]
  exact Nat.le_add_left _ _

end Heap

/-! ## Functions that write data -/

variable {json : Json} {v : Value} {m : Machine} {clock : Clock} {globals : Globals}
  {name : String} {e : Expr}

theorem callNative_jsonText (h : m.heap.json? v = some json) :
    callNative .jsonText [v] m = .ok (.string json.compact) m := by
  -- there is no third argument, which stands for no number
  have hnumber : ¬ (0.0 : Float) < m.heap.number (argument [v] 2) :=
    show ¬ (0.0 : Float) < 0.0 / 0.0 by decide
  show jsonText [v] m = _
  rw [jsonText, bind_eq_ok (rfl : (get : Exec Machine) m = .ok m m),
    show argument [v] 0 = v from rfl, h]
  simp only [if_neg hnumber]
  rfl

theorem callNative_writeMarkup {data : Json} (hdata : data.IsContainer)
    (hv : m.heap.Represents data v) (h : m.heap.json? v = some json) :
    callNative .writeMarkup [v] m = .ok .undefined
      { m with output := m.output ++ escapeMarkup json.compact } := by
  have hmarkup : markupText v m = .ok json.compact m := by
    obtain ⟨items, rfl⟩ | ⟨fields, rfl⟩ := hdata
    all_goals
      cases hv
      show EStateM.Result.ok ((m.heap.json? _).map Json.compact |>.getD "") m = _
      rw [h]
      rfl
  show (markupText v >>= fun text => do
    write (escapeMarkup text)
    return .undefined : Exec Value) m = _
  rw [bind_eq_ok hmarkup]
  rfl

/-! ## Entries of a context -/

/-- A value holds data if it stands for it, and all of its parts are on the heap. -/
def Heap.Holds (json : Json) (h : Heap) (v : Value) : Prop :=
  h.Represents json v ∧ json.parts ≤ h.size

/-- A script begins with the exact data of its context. -/
theorem begun_offers_data (hfield : globals.context.HasField name json)
    (hexact : json.isExact = true) (clock : Clock) :
    (Machine.begun globals clock).Offers name (Heap.Holds json) := by
  obtain ⟨fields, hobject, hnames, hmem⟩ := hfield
  refine begun_offers_context hobject hnames hmem ?_ (fun h => ?_) clock
  · exact fun h h' v hext hv => ⟨hv.1.mono hext, hv.2.trans hext.size_le⟩
  · exact ⟨h.represents_ofJson json hexact, h.size_ofJson json ▸ Nat.le_add_left _ _⟩

/-- The function that gives JSON texts is found on the object that holds it. -/
theorem begun_offers_jsonText (hjson : ¬ Redefines globals.context "JSON") (clock : Clock) :
    (Machine.begun globals clock).Offers "JSON" fun h owner =>
      owner.isNullish = false ∧ h.member owner "stringify" = .native .jsonText := by
  have hobject : ("JSON", [("stringify", Value.native .jsonText)]) ∈ nativeObjects := by
    simp [nativeObjects]
  obtain ⟨_, hfound, place, rfl, hplace⟩ := begun_offers_object hobject hjson clock
  refine ⟨.object place, hfound, rfl, ?_⟩
  simp [Heap.member, Heap.object, Array.getD_eq_getD_getElem?, hplace, Fields.get?]

/-- **The JSON text of an entry of the context** is that of the data in order. -/
theorem Runner.expression_jsonText {source : List Char} {bound depth : Nat}
    (hfield : globals.context.HasField name json) (hexact : json.isExact = true)
    (hjson : ¬ Redefines globals.context "JSON") (hclock : clock.Allows 1)
    (hsaid : Phrase.Says (.call (.member "JSON" "stringify") [.name name]) e) : ∃ later,
      (deep source bound (depth + 3)).expression e Scopes.globalPlace (.begun globals clock) =
        .ok (.string json.canonical.compact) (.begun globals later) := by
  obtain ⟨span, _, _, hfunction, hargument, rfl⟩ := hsaid.eq_call
  obtain ⟨later, -, htick⟩ := tick_begun hclock
  obtain ⟨v, hfound, hdata, hsize⟩ := begun_offers_data hfield hexact later
  obtain ⟨owner, howner, hvalue, hmember⟩ := begun_offers_jsonText hjson later
  have htext := callNative_jsonText (Heap.json?_of_represents hdata hexact hsize)
  cases hargument with
  | name textSpan =>
    cases hfunction with
    | member functionSpan ownerSpan nameSpan =>
      have hfunction : (deep source bound (depth + 2)).expression
          (.member functionSpan (.name ownerSpan "JSON") "stringify" nameSpan false)
            Scopes.globalPlace (.begun globals later) =
              .ok (.native .jsonText) (.begun globals later) :=
        hmember ▸ expression_member hvalue (expression_name howner)
      exact ⟨later, (expression_call htick hfunction (expression_name hfound)).trans htext⟩

/-- A script that writes the JSON text of the value of a name. -/
def writeJsonText (name : String) : String := "write(JSON.stringify(" ++ name ++ "));"

/-- A script that writes the value of a name into markup. -/
def writeIntoMarkup (name : String) : String := "writeHtml(" ++ name ++ ");"

theorem runScript_writeIntoMarkup (hfield : globals.context.HasField name json)
    (hexact : json.isExact = true) (hcontainer : json.IsContainer) (hname : IsName name)
    (hglobals : ¬ Redefines globals.context "writeHtml") (hclock : clock.Running) :
    runScript (writeIntoMarkup name) globals clock = .ok (escapeMarkup json.canonical.compact) := by
  have hsource : writeIntoMarkup name = String.ofList (List.replicate 0 ';' ++
      (Phrase.written literalChar (.call (.name "writeHtml") [.name name]) ++ [';'])) := by
    simp [writeIntoMarkup, Phrase.written, Phrase.allWritten, Callee.written,
      ← String.toList_inj]
  have hargument : Phrase.Sayable literalChar (.name name) := hname
  obtain ⟨span, nameSpan, e, hsaid, hread⟩ := @readProgram_call literalChar "writeHtml" _
    ⟨by decide, by decide, by decide⟩ (by decide) (by decide) hargument 0
  have hwrite : ("writeHtml", Native.writeMarkup) ∈ nativeNames := by decide
  rw [hsource]
  refine runScript_call hwrite hglobals hclock.allows hread fun later _ depth => ?_
  obtain ⟨v, hfound, hdata, hsize⟩ := begun_offers_data hfield hexact later
  have hwritten := callNative_writeMarkup hcontainer hdata
    (Heap.json?_of_represents hdata hexact hsize)
  cases hsaid with
  | name textSpan =>
    refine ⟨v, _, _, _, Runner.expression_name hfound, hwritten, ?_⟩
    simp only [(begins_begun globals later).output, String.empty_append]

/-- **A script that writes the JSON text of an entry of its context** ends with the text of the data
in order. -/
theorem runScript_writeJsonText (hfield : globals.context.HasField name json)
    (hexact : json.isExact = true) (hname : IsName name)
    (hwrite : ¬ Redefines globals.context "write") (hjson : ¬ Redefines globals.context "JSON")
    (hclock : clock.Allows 2) :
    runScript (writeJsonText name) globals clock = .ok json.canonical.compact := by
  have hsource : writeJsonText name = String.ofList (List.replicate 0 ';' ++
      (Phrase.written literalChar
        (.call (.name "write") [.call (.member "JSON" "stringify") [.name name]]) ++ [';'])) := by
    show "write(JSON.stringify(" ++ name ++ "));" = _
    simp [Phrase.written, Phrase.allWritten, Callee.written, ← String.toList_inj]
  have hargument : Phrase.Sayable literalChar (.call (.member "JSON" "stringify") [.name name]) :=
    ⟨.member ⟨by decide, by decide, by decide⟩ (by decide), hname, trivial⟩
  obtain ⟨span, nameSpan, e, hsaid, hread⟩ :=
    readProgram_call isName_write (by decide) (by decide) hargument 0
  have hnative : ("write", Native.write) ∈ nativeNames := by decide
  rw [hsource]
  refine runScript_call hnative hwrite hclock hread fun later hlater depth => ?_
  obtain ⟨last, hvalue⟩ := Runner.expression_jsonText hfield hexact hjson hlater hsaid
  refine ⟨_, _, _, _, hvalue, callNative_write, ?_⟩
  show (Machine.begun globals last).output ++ json.canonical.compact = _
  rw [(begins_begun globals last).output, String.empty_append]

/-! ## What becomes of data -/

/-- What becomes of a value of the data format that a script is given. -/
structure Survives (json : Json) : Prop where
  /-- From the value that is made for it, in whatever state of the run, it is given back. -/
  restored (h : Heap) : (h.ofJson json).2.json? (h.ofJson json).1 = some json.canonical
  /-- It is in order then, and the same if it was in order before. -/
  ordered : json.canonical.inOrder = true ∧ (json.inOrder = true → json.canonical = json)
  /-- As an entry of a context it can be written as JSON text. -/
  writtenAsJson (globals : Globals) (name : String) (clock : Clock) :
    globals.context.HasField name json → IsName name → ¬ Redefines globals.context "write" →
      ¬ Redefines globals.context "JSON" → clock.Allows 2 →
        runScript (writeJsonText name) globals clock = .ok json.canonical.compact
  /-- As an entry of a context, an array or an object can be written into markup. -/
  writtenAsMarkup (globals : Globals) (name : String) (clock : Clock) :
    globals.context.HasField name json → IsName name → ¬ Redefines globals.context "writeHtml" →
      clock.Running → json.IsContainer →
        runScript (writeIntoMarkup name) globals clock = .ok (escapeMarkup json.canonical.compact)

/-- **Exact data survives the script that it is given to**: it is given back as it was, with the
fields of its objects in order, and is written in this form. -/
theorem exact_data_survives (hexact : json.isExact = true) : Survives json where
  restored h := h.json?_ofJson hexact
  ordered := ⟨json.inOrder_canonical hexact, json.canonical_of_inOrder⟩
  writtenAsJson _ _ _ hfield hname hwrite hjson hclock :=
    runScript_writeJsonText hfield hexact hname hwrite hjson hclock
  writtenAsMarkup _ _ _ hfield hname hwrite hclock hcontainer :=
    runScript_writeIntoMarkup hfield hexact hcontainer hname hwrite hclock

/-- Data with objects inside of arrays, a number next to the limit and a text with marks. -/
def nestedData : Json :=
  .object [("rows", .array [.int (-9007199254740991), .null, .object [("b", .bool true),
    ("a", .string "<'&")]]), ("", .array [])]

/-- The text of that data, with its fields in order. -/
def nestedText : String :=
  "\x7b\"\":[],\"rows\":[-9007199254740991,null,\x7b\"a\":\"<'&\",\"b\":true\x7d]\x7d"

/-- Nested data comes out of a script with its fields in order. -/
theorem exact_data_survives_nestedData : nestedData.isExact = true ∧
    runScript "write(JSON.stringify(data));"
      ⟨"/main.exp", .object [("data", nestedData), ("size", .float 0.5)]⟩ ⟨some 2⟩ =
        .ok nestedText := by
  have hexact : nestedData.isExact = true := by decide
  have htext : nestedData.canonical.compact = nestedText := by cbv
  have hfield : Json.HasField (.object [("data", nestedData), ("size", .float 0.5)]) "data"
      nestedData := ⟨_, rfl, by decide, by simp⟩
  have hother (name : String) (hdata : "data" ≠ name) (hsize : "size" ≠ name) :
      ¬ Redefines (.object [("data", nestedData), ("size", .float 0.5)]) name := by
    simp [redefines_iff, contextEntries, GlobalEntry.data, hdata, hsize]
  have hname : IsName "data" := ⟨by decide, by decide, by decide⟩
  have hclock : Clock.Allows ⟨some 2⟩ 2 := by simp [Clock.Allows]
  refine ⟨hexact, ?_⟩
  rw [← htext]
  exact (exact_data_survives hexact).writtenAsJson ⟨"/main.exp", _⟩ "data" _ hfield hname
    (hother "write" (by decide) (by decide)) (hother "JSON" (by decide) (by decide)) hclock

end Script

end Stencil
