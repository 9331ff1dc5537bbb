import DebugSweep.Value

/-! What the journal keeps of a request's arguments: names, sizes and counts, never source text. -/
namespace DebugSweep.Journal

def plainTexts : List String := ["path", "id", "kind", "format", "language", "mode", "since", "tool"]

def nameLists : List String := ["disabled_types", "fields"]

def lineOf : Option Value → Value
  | some (.record place) =>
      match Value.fieldIn? "line" place with
      | some (.int n) => .int n
      | _ => .null
  | _ => .null

def selectionLines (fields : List (String × Value)) : Value :=
  let start := Value.fieldIn? "start" fields
  .list [lineOf start, lineOf ((Value.fieldIn? "end" fields).or start)]

def sortTexts (items : List String) : List String := items.mergeSort (fun a b => decide (a ≤ b))

def describe (key : String) (value : Value) : List (String × Value) :=
  match value with
  | .text s =>
      if plainTexts.contains key then [(key, value)]
      else [(key ++ "_length", .ofNat s.toList.length),
            (key ++ "_lines", .ofNat (s.toList.count '\n' + 1))]
  | .list items =>
      match nameLists.contains key, value.texts? with
      | true, some names => [(key, Value.ofTexts (sortTexts names))]
      | _, _ => [(key ++ "_count", .ofNat items.length)]
  | .record fields =>
      if key == "selection" then [("selection_lines", selectionLines fields)]
      else [(key ++ "_keys", Value.ofTexts (sortTexts (fields.map Prod.fst)))]
  | .moment _ => [(key ++ "_type", .text "datetime")]
  | _ => [(key, value)]

/-- Arguments by name; of two entries of one name the later one counts. -/
def metadata (arguments : List (String × Value)) : List (String × Value) :=
  let sorted := arguments.mergeSort (fun a b => decide (a.1 ≤ b.1))
  (sorted.flatMap (fun (key, value) => describe key value)).foldl
    (fun kept (name, value) => Value.setIn name value kept) []

end DebugSweep.Journal
