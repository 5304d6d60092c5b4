import Ceramic.QueryFilterParser
import Ceramic.Library.ThreeValued

/-! The SQL condition of a parsed query filter. A Knex builder collects statements; a
function given to `where` is run on a builder of its own, whose statements become one
group in parentheses, or nothing if there are none. -/
namespace Ceramic

open ThreeValued QueryFilterParser

def DATA_FIELD : String := "stream_content"

def contentKey (field : String) : String := DATA_FIELD ++ "->>'" ++ field ++ "'"

inductive Cast where
  | boolean | numeric | varchar
  deriving DecidableEq, Repr

def Cast.name : Cast → String
  | .boolean => "boolean"
  | .numeric => "numeric"
  | .varchar => "varchar"

def nonBooleanTypeAsCast : NonBooleanValueFilterType → Cast
  | .number => .numeric
  | .string => .varchar

def typeAsCast : ValueFilterType → Cast
  | .boolean => .boolean
  | .number => nonBooleanTypeAsCast .number
  | .string => nonBooleanTypeAsCast .string

/-- A raw condition on a field of the content. -/
inductive RawCondition where
  | nullCheck (field : String) (isNull : Bool)
  | compare (field : String) (cast : Cast) (op : CompareOp) (value : ScalarValue)
  | membership (field : String) (cast : Cast) (negated : Bool) (value : List ScalarValue)
  deriving DecidableEq, Repr

/-- A value as a template string writes it. -/
def valueText (numberText : Rat → String) : ScalarValue → String
  | .boolean b => if b then "true" else "false"
  | .number n => numberText n
  | .string s => s

def literalText (numberText : Rat → String) (cast : Cast) (value : ScalarValue) : String :=
  if cast = .varchar then "'" ++ valueText numberText value ++ "'" else valueText numberText value

def RawCondition.text (numberText : Rat → String) : RawCondition → String
  | .nullCheck field isNull => contentKey field ++ (if isNull then " is null" else " is not null")
  | .compare field cast op value => "cast(" ++ contentKey field ++ " as " ++ cast.name ++ ")" ++
      op.symbol ++ literalText numberText cast value
  | .membership field cast negated value => "cast(" ++ contentKey field ++ " as " ++ cast.name ++
      ")" ++ (if negated then " not in " else " in ") ++ "(" ++
      ",".intercalate (value.map (literalText numberText cast)) ++ ")"

example (numberText : Rat → String) :
    (RawCondition.membership "a" .varchar true [.string "x", .string "y"]).text numberText =
      "cast(stream_content->>'a' as varchar) not in ('x','y')" := rfl

inductive Statement where
  | raw (not : Bool) (bool : Connective) (condition : RawCondition)
  | wrapped (not : Bool) (bool : Connective) (group : List Statement)

abbrev DBQuery := List Statement

abbrev WhereFunc := DBQuery → DBQuery

namespace DBQuery

def where_ (query : DBQuery) (func : WhereFunc) : DBQuery :=
  query ++ [.wrapped false .and (func [])]

def andWhere (query : DBQuery) (func : WhereFunc) : DBQuery := where_ query func

def orWhere (query : DBQuery) (func : WhereFunc) : DBQuery :=
  query ++ [.wrapped false .or (func [])]

def whereNot (query : DBQuery) (func : WhereFunc) : DBQuery :=
  query ++ [.wrapped true .and (func [])]

def whereRaw (query : DBQuery) (condition : RawCondition) : DBQuery :=
  query ++ [.raw false .and condition]

end DBQuery

structure ConversionState (T : Type) where
  filter : T
  combinator : Option Connective
  negated : Bool

structure ConvertedQueryFilter where
  select : List String
  whereFunc : WhereFunc

namespace QueryFilterConverter

open DBQuery

def handleQuery (query : DBQuery) (func : WhereFunc) (first negated : Bool)
    (combinator : Option Connective) : DBQuery :=
  let opFunc : WhereFunc := fun bldr =>
    if first then where_ bldr func
    else if combinator = some .or then orWhere bldr func
    else andWhere bldr func
  if negated then whereNot query opFunc else where_ query opFunc

def handleIn (query : DBQuery) (field : String) (tpe : NonBooleanValueFilterType)
    (value : List ScalarValue) (first negated : Bool) (combinator : Option Connective) : DBQuery :=
  let inner : WhereFunc := fun bldr =>
    whereRaw bldr (.membership field (nonBooleanTypeAsCast tpe) negated value)
  if first then where_ query inner
  else if combinator = some .or then orWhere query inner
  else andWhere query inner

/-- One turn of the loop over the keys. -/
def handleKey (combinator : Option Connective) (negated first : Bool) (old : WhereFunc)
    (filterKey : String) : Option AllValueFilter → Except JsError WhereFunc
  | none => .error ⟨"Cannot read properties of undefined (reading 'op')"⟩
  | some (.null _ value) => .ok fun bldr =>
      handleQuery (old bldr) (fun b => whereRaw b (.nullCheck filterKey value)) first negated combinator
  -- for `nin` a negated flag is computed as well, but this one is passed on
  | some (.inArray tpe value) | some (.nin tpe value) =>
    if value.isEmpty then .error ⟨"Expected an array with at least one item"⟩
    else .ok fun bldr => handleIn (old bldr) filterKey tpe value first negated combinator
  | some (.compare _ op value) => .ok fun bldr =>
      handleQuery (old bldr)
        (fun b => whereRaw b (.compare filterKey (typeAsCast (getValueType value)) op value))
        first negated combinator

def handleKeys (combinator : Option Connective) (negated : Bool) :
    Bool → WhereFunc → ObjectFilter → Except JsError WhereFunc
  | _, old, [] => .ok old
  | first, old, (filterKey, value) :: rest => do
    let func ← handleKey combinator negated first old filterKey value
    handleKeys combinator negated false func rest

def handleWhereQuery (state : ConversionState ObjectFilter) : Except JsError ConvertedQueryFilter := do
  let many := decide (state.filter.length > 1)
  let combinator := if many then some .and else state.combinator
  let negated := if many then false else state.negated
  let func ← handleKeys combinator negated true id state.filter
  return {
    select := state.filter.map (·.1)
    whereFunc := if many && state.negated then fun bldr => whereNot bldr func else func }

/-- Each function runs when the loop over the filters is over, and then finds that it is
not the first. -/
def handleCombinator (combinator : Connective) (converted : List ConvertedQueryFilter)
    (negated : Bool) : ConvertedQueryFilter :=
  let func : WhereFunc := converted.foldl (fun old res bldr =>
    if combinator = .or then orWhere (old bldr) res.whereFunc
    else andWhere (old bldr) res.whereFunc) id
  { select := converted.flatMap (·.select)
    whereFunc := if negated then fun bldr => whereNot bldr func else func }

mutual
def convert (combinator : Option Connective) (negated : Bool) :
    QueryFilters → Except JsError ConvertedQueryFilter
  | .where value => handleWhereQuery { filter := value, combinator, negated }
  | .and value => do
    let converted ← convertAll .and value
    return handleCombinator .and converted negated
  | .or value => do
    let converted ← convertAll .or value
    return handleCombinator .or converted negated
  | .not value => convert combinator (!negated) value
  | .undefined => throw ⟨"Cannot read properties of undefined (reading 'type')"⟩

/-- Negation is applied after the filters have been combined. -/
def convertAll (combinator : Connective) :
    List QueryFilters → Except JsError (List ConvertedQueryFilter)
  | [] => return []
  | filter :: filters => do
    let converted ← convert (some combinator) false filter
    let rest ← convertAll combinator filters
    return converted :: rest
end

def convertQueryFilter : QueryFilters → Except JsError ConvertedQueryFilter
  | .undefined => .ok { select := [], whereFunc := id }
  | filter => convert none false filter

end QueryFilterConverter

end Ceramic
