import Mathlib.Data.List.Nodup
import Stencil.Script.Heap

/-! # Data in scripts

The value that a script gets for a value of the data format has the same form, with arrays and
objects on the heap.  Making it adds to the heap and changes nothing that is there, so that what one
value stands for stays true while others are made.
-/
namespace Stencil

namespace Json

mutual

/-- Whether the values of a script can say a value of the data format as it is: no number has a
fraction or reaches `2 ^ 53`, and no object has two fields of one name. -/
def isExact : Json → Bool
  | int n => n.natAbs < 2 ^ 53
  | float _ => false
  | array items => exactItems items
  | object fields => (fields.map (·.1)).Nodup && exactFields fields
  | _ => true

/-- `isExact` of every item. -/
def exactItems : List Json → Bool
  | [] => true
  | item :: rest => isExact item && exactItems rest

/-- `isExact` of the value of every field. -/
def exactFields : List (String × Json) → Bool
  | [] => true
  | (_, value) :: rest => isExact value && exactFields rest

end

mutual

/-- The number of arrays and objects in a value. -/
def parts : Json → Nat
  | array items => partsOfItems items + 1
  | object fields => partsOfFields fields + 1
  | _ => 0

/-- The number of arrays and objects in items. -/
def partsOfItems : List Json → Nat
  | [] => 0
  | item :: rest => parts item + partsOfItems rest

/-- The number of arrays and objects in the values of fields. -/
def partsOfFields : List (String × Json) → Nat
  | [] => 0
  | (_, value) :: rest => parts value + partsOfFields rest

end

end Json

namespace Script

/-! ## Heaps that grow -/

/-- Whatever is at a place of a heap is there in another one. -/
structure Heap.Extends (h h' : Heap) : Prop where
  arrays : ∀ {place : Nat} {items : Array Value}, h.arrays[place]? = some items →
    h'.arrays[place]? = some items
  objects : ∀ {place : Nat} {fields : Fields}, h.objects[place]? = some fields →
    h'.objects[place]? = some fields

namespace Heap

variable {h h' h'' : Heap}

theorem Extends.refl (h : Heap) : h.Extends h := ⟨id, id⟩

theorem Extends.trans (hfirst : h.Extends h') (hsecond : h'.Extends h'') : h.Extends h'' :=
  ⟨fun hplace => hsecond.arrays (hfirst.arrays hplace),
    fun hplace => hsecond.objects (hfirst.objects hplace)⟩

theorem getElem?_push_of_some {α : Type} {list : Array α} {place : Nat} {a : α}
    (h : list[place]? = some a) (b : α) : (list.push b)[place]? = some a := by
  obtain ⟨hplace, rfl⟩ := Array.getElem?_eq_some_iff.mp h
  rw [Array.getElem?_push_lt hplace]

theorem extends_newArray (h : Heap) (items : Array Value) : h.Extends (h.newArray items).2 :=
  ⟨fun hplace => getElem?_push_of_some hplace items, id⟩

theorem extends_newObject (h : Heap) (fields : Fields) : h.Extends (h.newObject fields).2 :=
  ⟨id, fun hplace => getElem?_push_of_some hplace fields⟩

theorem size_le_of_getElem? {α : Type} {list list' : Array α}
    (h : ∀ {place : Nat} {a : α}, list[place]? = some a → list'[place]? = some a) :
    list.size ≤ list'.size := by
  by_contra hlt
  obtain ⟨hbound, -⟩ := Array.getElem?_eq_some_iff.mp
    (h (Array.getElem?_eq_getElem (by omega : list'.size < list.size)))
  omega

theorem Extends.size_le (hext : h.Extends h') : h.size ≤ h'.size :=
  Nat.add_le_add (size_le_of_getElem? hext.arrays) (size_le_of_getElem? hext.objects)

/-! ## Values that stand for data -/

mutual

/-- A value stands for a value of the data format. -/
inductive Represents (h : Heap) : Json → Value → Prop
  | null : Represents h .null .null
  | bool (b : Bool) : Represents h (.bool b) (.boolean b)
  | int (n : Int) : Represents h (.int n) (.number (Float.ofInt n))
  | string (s : String) : Represents h (.string s) (.string s)
  | array {items : List Json} {values : List Value} {place : Nat}
    (hplace : h.arrays[place]? = some values.toArray) (hitems : RepresentsItems h items values) :
    Represents h (.array items) (.array place)
  | object {fields : List (String × Json)} {values : Fields} {place : Nat}
    (hplace : h.objects[place]? = some values) (hfields : RepresentsFields h fields values) :
    Represents h (.object fields) (.object place)

/-- Values stand for items, one by one. -/
inductive RepresentsItems (h : Heap) : List Json → List Value → Prop
  | nil : RepresentsItems h [] []
  | cons {item : Json} {v : Value} {items : List Json} {values : List Value}
    (hitem : Represents h item v) (hrest : RepresentsItems h items values) :
    RepresentsItems h (item :: items) (v :: values)

/-- Fields stand for fields, one by one. -/
inductive RepresentsFields (h : Heap) : List (String × Json) → Fields → Prop
  | nil : RepresentsFields h [] []
  | cons (name : String) {json : Json} {v : Value} {fields : List (String × Json)} {values : Fields}
    (hfield : Represents h json v) (hrest : RepresentsFields h fields values) :
    RepresentsFields h ((name, json) :: fields) ((name, v) :: values)

end

mutual

/-- What a value stands for stays true when other values are made. -/
theorem Represents.mono {json : Json} {v : Value} (hext : h.Extends h')
    (hjson : h.Represents json v) : h'.Represents json v := by
  cases hjson with
  | null => exact .null
  | bool b => exact .bool b
  | int n => exact .int n
  | string s => exact .string s
  | array hplace hitems => exact .array (hext.arrays hplace) (hitems.mono hext)
  | object hplace hfields => exact .object (hext.objects hplace) (hfields.mono hext)

theorem RepresentsItems.mono {items : List Json} {values : List Value} (hext : h.Extends h')
    (hitems : h.RepresentsItems items values) : h'.RepresentsItems items values := by
  cases hitems with
  | nil => exact .nil
  | cons hitem hrest => exact .cons (hitem.mono hext) (hrest.mono hext)

theorem RepresentsFields.mono {fields : List (String × Json)} {values : Fields}
    (hext : h.Extends h') (hfields : h.RepresentsFields fields values) :
    h'.RepresentsFields fields values := by
  cases hfields with
  | nil => exact .nil
  | cons name hfield hrest => exact .cons name (hfield.mono hext) (hrest.mono hext)

end

/-! ## Making values -/

@[simp] theorem size_newArray (h : Heap) (items : Array Value) :
    (h.newArray items).2.size = h.size + 1 := by
  simp [newArray, size]
  omega

@[simp] theorem size_newObject (h : Heap) (fields : Fields) :
    (h.newObject fields).2.size = h.size + 1 := by
  simp [newObject, size]
  omega

mutual

/-- Making a value changes nothing that is there. -/
theorem extends_ofJson (h : Heap) (json : Json) : h.Extends (h.ofJson json).2 := by
  cases json with
  | array items => exact (extends_ofJsonItems h items).trans (extends_newArray _ _)
  | object fields => exact (extends_ofJsonFields h fields).trans (extends_newObject _ _)
  | _ => exact .refl h

theorem extends_ofJsonItems (h : Heap) (items : List Json) :
    h.Extends (h.ofJsonItems items).2 := by
  cases items with
  | nil => exact .refl h
  | cons item rest => exact (extends_ofJson h item).trans (extends_ofJsonItems _ rest)

theorem extends_ofJsonFields (h : Heap) (fields : List (String × Json)) :
    h.Extends (h.ofJsonFields fields).2 := by
  cases fields with
  | nil => exact .refl h
  | cons field rest => exact (extends_ofJson h field.2).trans (extends_ofJsonFields _ rest)

end

mutual

/-- Every array and object of a value comes to the heap. -/
theorem size_ofJson (h : Heap) (json : Json) : (h.ofJson json).2.size = h.size + json.parts := by
  cases json with
  | array items => rw [ofJson, size_newArray, size_ofJsonItems, Json.parts, Nat.add_assoc]
  | object fields => rw [ofJson, size_newObject, size_ofJsonFields, Json.parts, Nat.add_assoc]
  | _ => rfl

theorem size_ofJsonItems (h : Heap) (items : List Json) :
    (h.ofJsonItems items).2.size = h.size + Json.partsOfItems items := by
  cases items with
  | nil => rfl
  | cons item rest =>
    rw [ofJsonItems, size_ofJsonItems, size_ofJson, Json.partsOfItems, Nat.add_assoc]

theorem size_ofJsonFields (h : Heap) (fields : List (String × Json)) :
    (h.ofJsonFields fields).2.size = h.size + Json.partsOfFields fields := by
  cases fields with
  | nil => rfl
  | cons field rest =>
    rw [ofJsonFields, size_ofJsonFields, size_ofJson, Json.partsOfFields, Nat.add_assoc]

end

theorem set_of_notMem {key : String} (v : Value) {fields : Fields} (h : key ∉ fields.keys) :
    fields.set key v = fields ++ [(key, v)] := by
  induction fields with
  | nil => rfl
  | cons field rest ih =>
    obtain ⟨name, old⟩ := field
    rw [Fields.keys, List.map_cons, List.mem_cons, not_or] at h
    rw [Fields.set, if_neg (by simpa using Ne.symm h.1), ih h.2, List.cons_append]

/-- Fields with different names are set one behind the other. -/
theorem foldl_set {done fields : Fields} (h : (done.keys ++ fields.keys).Nodup) :
    fields.foldl (fun (done : Fields) (field : String × Value) => done.set field.1 field.2) done =
      done ++ fields := by
  induction fields generalizing done with
  | nil => exact (List.append_nil done).symm
  | cons field rest ih =>
    have hnew : field.1 ∉ done.keys := fun hmem =>
      (List.nodup_append.mp h).2.2 _ hmem _ List.mem_cons_self rfl
    have hkeys : (Fields.keys (done ++ [field]) ++ Fields.keys rest).Nodup := by
      simpa [Fields.keys] using h
    have hrest := ih hkeys
    rw [List.foldl_cons, set_of_notMem _ hnew, hrest, List.append_assoc, List.singleton_append]

theorem keys_ofJsonFields (h : Heap) (fields : List (String × Json)) :
    Fields.keys (h.ofJsonFields fields).1 = fields.map (·.1) := by
  induction fields generalizing h with
  | nil => rfl
  | cons field rest ih =>
    simp [ofJsonFields, Fields.keys] at ih ⊢
    exact ih _

mutual

/-- **The value that is made for exact data stands for it.** -/
theorem represents_ofJson (h : Heap) (json : Json) (hjson : json.isExact = true) :
    (h.ofJson json).2.Represents json (h.ofJson json).1 := by
  cases json with
  | null => exact .null
  | bool b => exact .bool b
  | int n => exact .int n
  | float x => cases hjson
  | string s => exact .string s
  | array items =>
    have hitems := (represents_ofJsonItems h items hjson).mono
      (extends_newArray _ (h.ofJsonItems items).1.toArray)
    refine .array ?_ hitems
    simp [ofJson, newArray]
  | object fields =>
    obtain ⟨hnames, hexact⟩ := Bool.and_eq_true_iff.mp hjson
    have hkeys : (Fields.keys [] ++ Fields.keys (h.ofJsonFields fields).1).Nodup := by
      rw [keys_ofJsonFields]
      simpa [Fields.keys] using hnames
    have hset := foldl_set hkeys
    have hfields := (represents_ofJsonFields h fields hexact).mono
      (extends_newObject _ (h.ofJsonFields fields).1)
    rw [List.nil_append] at hset
    rw [ofJson]
    simp only [hset]
    refine .object ?_ hfields
    simp [newObject]

theorem represents_ofJsonItems (h : Heap) (items : List Json)
    (hitems : Json.exactItems items = true) :
    (h.ofJsonItems items).2.RepresentsItems items (h.ofJsonItems items).1 := by
  cases items with
  | nil => exact .nil
  | cons item rest =>
    obtain ⟨hitem, hrest⟩ := Bool.and_eq_true_iff.mp hitems
    exact .cons ((represents_ofJson h item hitem).mono (extends_ofJsonItems _ rest))
      (represents_ofJsonItems _ rest hrest)

theorem represents_ofJsonFields (h : Heap) (fields : List (String × Json))
    (hfields : Json.exactFields fields = true) :
    (h.ofJsonFields fields).2.RepresentsFields fields (h.ofJsonFields fields).1 := by
  cases fields with
  | nil => exact .nil
  | cons field rest =>
    obtain ⟨name, json⟩ := field
    obtain ⟨hfield, hrest⟩ := Bool.and_eq_true_iff.mp hfields
    exact .cons name ((represents_ofJson h json hfield).mono (extends_ofJsonFields _ rest))
      (represents_ofJsonFields _ rest hrest)

end

end Heap

end Script

end Stencil
