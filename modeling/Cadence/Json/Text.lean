/-
  JSON values inside messages: `None`, `True`, quoted texts, lists and objects in brackets.
  A text that stands alone is shown without quotes.
-/
import Cadence.Json
import Cadence.Double.Text
import Cadence.Text.Quoted

namespace Cadence.Json

mutual
/-- The value with its texts in quotes. -/
def described : Json → String
  | .null => "None"
  | .bool b => if b then "True" else "False"
  | .int n => toString n
  | .double x => Double.text x
  | .text s => Text.quoted s
  | .list items => "[" ++ String.intercalate ", " (describedItems items) ++ "]"
  | .object fields => "\x7b" ++ String.intercalate ", " (describedFields fields) ++ "\x7d"

def describedItems : List Json → List String
  | [] => []
  | x :: xs => described x :: describedItems xs

def describedFields : List (String × Json) → List String
  | [] => []
  | (k, v) :: rest => (Text.quoted k ++ ": " ++ described v) :: describedFields rest
end

/-- The value as a message shows it: a text as it is, anything else described. -/
def shown : Json → String
  | .text s => s
  | j => described j

end Cadence.Json
