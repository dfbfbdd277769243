import ScriptLens.JsonText.Token
import ScriptLens.Text.Decimal

/-! # Values of JSON texts

Tokens are put together on a stack of unfinished lists and objects. After a value
comes a comma or the end of what is around it, and a comma is never the last.
-/
namespace ScriptLens.JsonText

inductive Value where
  | null
  | boolean (value : Bool)
  | number (written : List Char)
  | string (pieces : List Piece)
  | list (items : List Value)
  | object (fields : List (List Piece × Value))

/-- A list or an object with what it holds so far, the last first. An object waits
for the value of a key. -/
inductive Frame where
  | list (done : List Value)
  | object (done : List (List Piece × Value)) (key : List Piece)

inductive Expected where
  | value
  /-- A value, or the end of a list that has just begun. -/
  | valueOrEnd
  | key (done : List (List Piece × Value))
  /-- A key, or the end of an object that has just begun. -/
  | keyOrEnd
  | colon (done : List (List Piece × Value)) (key : List Piece)
  /-- A comma or an end, after a value. -/
  | more (last : Value)

structure Machine where
  expected : Expected
  around : List Frame

namespace Machine

def start : Machine := ⟨.value, []⟩

/-- A value that consists of one token. -/
def simple? : Token → Option Value
  | .null => some .null
  | .boolean b => some (.boolean b)
  | .number n => some (.number n)
  | .string s => some (.string s)
  | _ => none

def open? (around : List Frame) (t : Token) : Option Machine :=
  match t with
  | .openList => some ⟨.valueOrEnd, .list [] :: around⟩
  | .openObject => some ⟨.keyOrEnd, around⟩
  | t => (simple? t).map (⟨.more ·, around⟩)

def step? (m : Machine) (t : Token) : Option Machine :=
  match m.expected, t, m.around with
  | .valueOrEnd, .closeList, .list [] :: around => some ⟨.more (.list []), around⟩
  | .value, t, around => open? around t
  | .valueOrEnd, t, around => open? around t
  | .keyOrEnd, .closeObject, around => some ⟨.more (.object []), around⟩
  | .keyOrEnd, .string key, around => some ⟨.colon [] key, around⟩
  | .key done, .string key, around => some ⟨.colon done key, around⟩
  | .colon done key, .colon, around => some ⟨.value, .object done key :: around⟩
  | .more v, .comma, .list done :: around => some ⟨.value, .list (v :: done) :: around⟩
  | .more v, .closeList, .list done :: around =>
    some ⟨.more (.list (v :: done).reverse), around⟩
  | .more v, .comma, .object done key :: around => some ⟨.key ((key, v) :: done), around⟩
  | .more v, .closeObject, .object done key :: around =>
    some ⟨.more (.object ((key, v) :: done).reverse), around⟩
  | _, _, _ => none

def result? (m : Machine) : Option Value :=
  match m.expected, m.around with
  | .more v, [] => some v
  | _, _ => none

end Machine

def parse? (text : List Char) : Option Value :=
  (tokens? text).bind fun ts => (ts.foldlM Machine.step? Machine.start).bind Machine.result?

/-- The text of a string. Halves of surrogate pairs have to come together. -/
def decode? : List Piece → Option (List Char)
  | [] => some []
  | .char c :: rest => (decode? rest).map (c :: ·)
  | .unit n :: rest =>
    if n < 0xD800 || 0xDFFF < n then (decode? rest).map (Char.ofNat n :: ·)
    else
      match rest with
      | .unit m :: rest =>
        if n < 0xDC00 && 0xDC00 ≤ m && m ≤ 0xDFFF then
          (decode? rest).map
            (Char.ofNat (0x10000 + (n - 0xD800) * 0x400 + (m - 0xDC00)) :: ·)
        else none
      | _ => none

/-- A number that is written with digits only and fits a machine word. -/
def Value.word? : Value → Option Nat
  | .number written => Text.digits? written
  | _ => none

def Value.text? : Value → Option String
  | .string pieces => (decode? pieces).map String.ofList
  | _ => none

end ScriptLens.JsonText
