import BlocTrust.JsonReader

/-!
Objects of the language in JSON text.
An object lists its properties in the order of the language, array indices first.  `parse` reads a
text and creates the properties of every object one after the other, so that a value which lists
its properties in their order is read back from what was printed.
-/
namespace BlocTrust.JsonText

open JsonReader

section Properties

/-- The array index that a key is, if it is one. -/
def arrayIndex (key : Text) : Option Nat :=
  if digits (Nat.ofDigitChars 10 key 0) = key ∧ Nat.ofDigitChars 10 key 0 < 4294967295 then
    some (Nat.ofDigitChars 10 key 0)
  else none

/-- The order in which an object lists its properties; the other keys are in order of creation. -/
def precedes (k l : Text) : Bool :=
  match arrayIndex k, arrayIndex l with
  | some i, some j => i < j
  | some _, none => true
  | none, some _ => false
  | none, none => k ≠ l

/-- A property is created, or its value replaced. -/
def setProperty {α : Type} (key : Text) (value : α) : List (Text × α) → List (Text × α)
  | [] => [(key, value)]
  | e :: es =>
      if e.1 = key then (key, value) :: es
      else if precedes e.1 key then e :: setProperty key value es
      else (key, value) :: e :: es

def createAll {α : Type} (members : List (Text × α)) : List (Text × α) :=
  members.foldl (fun es m => setProperty m.1 m.2 es) []

def Ordered {α : Type} (es : List (Text × α)) : Prop :=
  es.Pairwise fun e f => precedes e.1 f.1 = true

variable {α : Type}

theorem precedes_irrefl (k : Text) : precedes k k = false := by
  unfold precedes
  cases arrayIndex k <;> simp

theorem setProperty_behind {key : Text} {value : α} {es : List (Text × α)}
    (h : ∀ e ∈ es, precedes e.1 key = true) :
    setProperty key value es = es ++ [(key, value)] := by
  induction es with
  | nil => rfl
  | cons e es ih =>
      have he := h e (.head _)
      have hne : e.1 ≠ key := by
        intro heq
        rw [heq, precedes_irrefl] at he
        cases he
      rw [setProperty, if_neg hne, if_pos he, ih fun f hf => h f (.tail _ hf)]
      rfl

theorem foldl_setProperty (members created : List (Text × α)) (h : Ordered (created ++ members)) :
    members.foldl (fun es m => setProperty m.1 m.2 es) created = created ++ members := by
  induction members generalizing created with
  | nil => simp
  | cons m members ih =>
      have hbehind : ∀ e ∈ created, precedes e.1 m.1 = true := by
        intro e he
        exact (List.pairwise_append.mp h).2.2 e he m (.head _)
      have hsplit : created ++ m :: members = (created ++ [m]) ++ members := by simp
      rw [hsplit] at h ⊢
      rw [List.foldl_cons, setProperty_behind hbehind]
      exact ih _ h

/-- Properties that are created in their order are listed so. -/
theorem createAll_ordered {es : List (Text × α)} (h : Ordered es) : createAll es = es :=
  foldl_setProperty es [] h

end Properties

section Objects

variable {N : Type}

mutual

/-- The value whose objects have been built from the members. -/
def created : Value N Empty → Value N Empty
  | .array vs => .array (createdValues vs)
  | .object es => .object (createAll (createdEntries es))
  | v => v

def createdValues : List (Value N Empty) → List (Value N Empty)
  | [] => []
  | v :: vs => created v :: createdValues vs

def createdEntries : List (Text × Value N Empty) → List (Text × Value N Empty)
  | [] => []
  | (k, v) :: es => (k, created v) :: createdEntries es

end

/-- `JSON.parse`; `none` is the `SyntaxError`. -/
def parse (F : NumberFormat N) (t : Text) : Option (Value N Empty) := (read F t).map created

mutual

/-- Every object lists its properties in their order. -/
def AllOrdered {N B : Type} : Value N B → Prop
  | .array vs => AllOrderedValues vs
  | .object es => Ordered es ∧ AllOrderedEntries es
  | _ => True

def AllOrderedValues {N B : Type} : List (Value N B) → Prop
  | [] => True
  | v :: vs => AllOrdered v ∧ AllOrderedValues vs

def AllOrderedEntries {N B : Type} : List (Text × Value N B) → Prop
  | [] => True
  | (_, v) :: es => AllOrdered v ∧ AllOrderedEntries es

end

mutual

/-- What lists its properties in their order is built as it is. -/
theorem created_ordered (v : Value N Empty) (h : AllOrdered v) : created v = v := by
  cases v with
  | array vs =>
      rw [AllOrdered] at h
      rw [created, createdValues_ordered vs h]
  | object es =>
      rw [AllOrdered] at h
      rw [created, createdEntries_ordered es h.2, createAll_ordered h.1]
  | _ => rfl

theorem createdValues_ordered (vs : List (Value N Empty)) (h : AllOrderedValues vs) :
    createdValues vs = vs := by
  cases vs with
  | nil => rfl
  | cons v vs =>
      rw [AllOrderedValues] at h
      rw [createdValues, created_ordered v h.1, createdValues_ordered vs h.2]

theorem createdEntries_ordered (es : List (Text × Value N Empty)) (h : AllOrderedEntries es) :
    createdEntries es = es := by
  cases es with
  | nil => rfl
  | cons e es =>
      obtain ⟨k, v⟩ := e
      rw [AllOrderedEntries] at h
      rw [createdEntries, created_ordered v h.1, createdEntries_ordered es h.2]

end

/-- What is printed is read back. -/
theorem parse_print (F : NumberFormat N) {v : Value N Empty} (hv : AllOrdered v) :
    parse F (print F v) = some v := by
  rw [parse, read_print, Option.map_some, created_ordered v hv]

end Objects

end BlocTrust.JsonText
