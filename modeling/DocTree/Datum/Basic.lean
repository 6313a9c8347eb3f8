/-!
# Structured data

The form in which names, handles, values and configurations leave and enter a program: data made of
lists and named fields, as in JSON. A structure is written with named fields, and read from named
fields or from a list of all its fields in order. An alternative without content is its word; one
with content is a single field named by its word.

## Main definitions

- `Datum` — the data
- `Datum.fields?` — the fields of a structure
- `Datum.word?`, `Datum.variant?` — alternatives
-/

namespace DocTree

/-- Structured data. -/
inductive Datum where
  | null
  | bool (value : Bool)
  | int (value : Int)
  /-- A number that is not written as an integer. -/
  | fraction
  | text (value : String)
  | list (items : List Datum)
  | record (fields : List (String × Datum))
deriving Inhabited

namespace Datum

/-- Whether this is the datum that stands for nothing. -/
def isNull : Datum → Bool
  | null => true
  | _ => false

/-- A text. -/
def text? : Datum → Option String
  | text s => some s
  | _ => none

/-- An integer that fits into 64 bits with a sign. -/
def int64? : Datum → Option Int
  | int i => if Int64.minValue.toInt ≤ i ∧ i ≤ Int64.maxValue.toInt then some i else none
  | _ => none

/-- A natural number that fits into 64 bits. -/
def nat64? : Datum → Option Nat
  | int i => if 0 ≤ i ∧ i < UInt64.size then some i.toNat else none
  | _ => none

/-- Something that may be left out, or be null. -/
def optional? {α : Type} (read : Datum → Option α) : Option Datum → Option (Option α)
  | none | some null => some none
  | some d => (read d).map some

/-- Something that has to be there. -/
def required? {α : Type} (read : Datum → Option α) (d? : Option Datum) : Option α := d?.bind read

/-- The fields of a structure by their names; further fields are ignored. As a list they are all
there, in order and without anything else, unless `mayBeShorter`. -/
def fields? (names : List String) (mayBeShorter : Bool) : Datum → Option (List (Option Datum))
  | record fields => some (names.map fun name => fields.lookup name)
  | list items =>
    if items.length = names.length ∨ (mayBeShorter ∧ items.length < names.length) then
      some ((List.range names.length).map fun i => items[i]?)
    else none
  | _ => none

/-- The word of an alternative without content. -/
def word? : Datum → Option String
  | text w => some w
  | record [(w, null)] => some w
  | _ => none

/-- The word and the content of an alternative with content. -/
def variant? : Datum → Option (String × Datum)
  | record [(w, d)] => some (w, d)
  | _ => none

end Datum

end DocTree
