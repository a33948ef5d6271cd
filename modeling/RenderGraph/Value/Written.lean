import RenderGraph.Value.Basic
import RenderGraph.Text.Quoted

/-!
# The written form of values

Values are written with `None`, `True` and `False`, shortest numbers and quoted texts, lists between
brackets and maps between braces. A text that is asked for as a text is written as it is.

## Main definitions

* `Value.written`: the written form
* `Value.asText`: a text as it is, any other value in its written form
* `Value.writtenTuple`: items between parentheses
-/

namespace RenderGraph.Value

mutual

/-- The written form of a value. -/
def written : Value → String
  | null => "None"
  | bool b => if b then "True" else "False"
  | number n => n.text
  | text s => Text.quoted s
  | list items => "[" ++ ", ".intercalate (writtenItems items) ++ "]"
  | map fields => "\x7b" ++ ", ".intercalate (writtenFields fields) ++ "\x7d"
  | tensor t => "array of " ++ toString t.buffer.size

/-- The written forms of the items of a list. -/
def writtenItems : List Value → List String
  | [] => []
  | v :: vs => written v :: writtenItems vs

/-- The written forms of the fields of a map. -/
def writtenFields : List (String × Value) → List String
  | [] => []
  | (key, v) :: fields => (Text.quoted key ++ ": " ++ written v) :: writtenFields fields

end

/-- A text as it is, any other value in its written form. -/
def asText : Value → String
  | text s => s
  | v => v.written

/-- The written form of items that belong together; a single item is followed by a comma. -/
def writtenTuple (items : List Value) : String :=
  match writtenItems items with
  | [item] => "(" ++ item ++ ",)"
  | written => "(" ++ ", ".intercalate written ++ ")"

/-- The written form of what may be absent. -/
def writtenOption {α : Type} (write : α → String) : Option α → String
  | none => "None"
  | some a => write a

end RenderGraph.Value
