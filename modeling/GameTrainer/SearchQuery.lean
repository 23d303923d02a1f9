import GameTrainer.Failure
import GameTrainer.TextNumeral
import GameTrainer.TextSplit

/-!
# Search queries

A query narrows a search: it compares the value an item has now with a given
value, or with the value the item had at the previous step. Queries are written
as a name, and with `=` and a value where one is compared with or added.
-/

namespace GameTrainer

/-- One narrowing step of a search. -/
inductive Query where
  /-- The value is this one. -/
  | exact (value : UInt32)
  | less | greater | lessOrEqual | greaterOrEqual | equal | unequal
  /-- The value rose by this much. -/
  | equalPlus (delta : UInt32)
  /-- The value fell by this much. -/
  | equalMinus (delta : UInt32)
  deriving DecidableEq, Repr

namespace Query

/-- Whether an item passes, given its value now and at the previous step. Sums
and differences wrap at 32 bits, whatever the width of the items. -/
def holds (query : Query) (current previous : UInt32) : Bool :=
  match query with
  | exact value => current == value
  | less => current < previous
  | greater => previous < current
  | lessOrEqual => current ≤ previous
  | greaterOrEqual => previous ≤ current
  | equal => current == previous
  | unequal => current != previous
  | equalPlus delta => current == previous + delta
  | equalMinus delta => current == previous - delta

/-- The written name of a query's kind. -/
def name : Query → String
  | exact _ => "exact"
  | less => "lt"
  | greater => "gt"
  | lessOrEqual => "lte"
  | greaterOrEqual => "gte"
  | equal => "eq"
  | unequal => "neq"
  | equalPlus _ => "eqplus"
  | equalMinus _ => "eqminus"

/-- The value that a query compares with or adds. -/
def operand? : Query → Option UInt32
  | exact value | equalPlus value | equalMinus value => some value
  | _ => none

/-- A query as text: its name, and its value in decimal behind an equals sign. -/
def render (query : Query) : String :=
  match query.operand? with
  | some value => query.name ++ "=" ++ toString value.toNat
  | none => query.name

/-- The kinds of query that a name can stand for: complete ones, and ones that
still need a value. -/
inductive Kind where
  | complete (query : Query)
  | withValue (query : UInt32 → Query)

/-- The kind of query with a name, in small letters. -/
def kind? : String → Option Kind
  | "exact" => some (.withValue exact)
  | "eqplus" => some (.withValue equalPlus)
  | "eqminus" => some (.withValue equalMinus)
  | "lt" => some (.complete less)
  | "gt" => some (.complete greater)
  | "lte" => some (.complete lessOrEqual)
  | "gte" => some (.complete greaterOrEqual)
  | "eq" => some (.complete equal)
  | "neq" => some (.complete unequal)
  | _ => none

/-- Read a query. Blanks around the name and the value and the letter case of
the name do not count, and a kind that needs no value ignores one. -/
def parse (text : String) : Except Failure Query :=
  let parts : List Char × Option (List Char) :=
    match Text.splitFirst '=' text.toList with
    | some (front, back) => (front, some back)
    | none => (text.toList, none)
  match kind? (String.ofList ((Text.trim parts.1).map Char.toLower)) with
  | some (.complete query) => .ok query
  | some (.withValue query) =>
    match parts.2.bind Numeral.word? with
    | some value => .ok (query value)
    | none => .error (.invalidQuery (.valueMissing text))
  | none => .error (.invalidQuery (.unknownKind text))

end Query

end GameTrainer
