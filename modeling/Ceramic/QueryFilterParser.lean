import Ceramic.Js

/-! Query filters as clients send them, and the trees they are parsed to. -/
namespace Ceramic

/-- `boolean | number | string`. -/
inductive ScalarValue where
  | boolean (b : Bool)
  | number (n : Rat)
  | string (s : String)
  deriving DecidableEq, Repr

inductive ValueFilterType where
  | boolean | number | string
  deriving DecidableEq, Repr

inductive NonBooleanValueFilterType where
  | number | string
  deriving DecidableEq, Repr

def NonBooleanValueFilterType.toValueFilterType : NonBooleanValueFilterType → ValueFilterType
  | .number => .number
  | .string => .string

inductive CompareOp where
  | eq | ne | lt | le | gt | ge
  deriving DecidableEq, Repr

def CompareOp.symbol : CompareOp → String
  | .eq => "="
  | .ne => "!="
  | .lt => "<"
  | .le => "<="
  | .gt => ">"
  | .ge => ">="

/-- A property of a field's filter; `other` is one that the parser does not know. -/
inductive ApiValueFilter where
  | isNull (value : Bool)
  | equalTo (value : ScalarValue)
  | notEqualTo (value : ScalarValue)
  | lessThan (value : ScalarValue)
  | lessThanOrEqualTo (value : ScalarValue)
  | greaterThan (value : ScalarValue)
  | greaterThanOrEqualTo (value : ScalarValue)
  | inArray (value : List ScalarValue)
  | notIn (value : List ScalarValue)
  | other (key : String)
  deriving DecidableEq, Repr

def ApiValueFilter.key : ApiValueFilter → String
  | .isNull _ => "isNull"
  | .equalTo _ => "equalTo"
  | .notEqualTo _ => "notEqualTo"
  | .lessThan _ => "lessThan"
  | .lessThanOrEqualTo _ => "lessThanOrEqualTo"
  | .greaterThan _ => "greaterThan"
  | .greaterThanOrEqualTo _ => "greaterThanOrEqualTo"
  | .inArray _ => "in"
  | .notIn _ => "notIn"
  | .other key => key

/-- The fields in the order of their keys, each with the properties of its filter. -/
abbrev ApiObjectFilter := List (String × List ApiValueFilter)

/-- `other` has the keys of an object that has not exactly one of the four. -/
inductive ApiQueryFilters where
  | where (value : ApiObjectFilter)
  | and (value : List ApiQueryFilters)
  | or (value : List ApiQueryFilters)
  | not (value : ApiQueryFilters)
  | other (keys : List String)

inductive AllValueFilter where
  | null (type : ValueFilterType) (value : Bool)
  | compare (type : ValueFilterType) (op : CompareOp) (value : ScalarValue)
  | inArray (type : NonBooleanValueFilterType) (value : List ScalarValue)
  | nin (type : NonBooleanValueFilterType) (value : List ScalarValue)
  deriving DecidableEq, Repr

/-- A value is missing where a field had no condition. -/
abbrev ObjectFilter := List (String × Option AllValueFilter)

/-- A tree is missing where a `where` had no field. -/
inductive QueryFilters where
  | where (value : ObjectFilter)
  | and (value : List QueryFilters)
  | or (value : List QueryFilters)
  | not (value : QueryFilters)
  | undefined

namespace QueryFilterParser

def getNonBooleanValueType : ScalarValue → NonBooleanValueFilterType
  | .number _ => .number
  | .boolean _ | .string _ => .string

def getValueType : ScalarValue → ValueFilterType
  | .boolean _ => .boolean
  | value => (getNonBooleanValueType value).toValueFilterType

/-- `text.startsWith(beginning)`. -/
def startsWith (text beginning : String) : Bool := beginning.toList.isPrefixOf text.toList

/-- Sorts the properties it is given by their keys. -/
def validateCombinedOps (ops : List ApiValueFilter) : Except JsError (List ApiValueFilter) :=
  match ops with
  | [first, second] =>
    let (low, high) := if second.key < first.key then (second, first) else (first, second)
    if !startsWith low.key "greaterThan" || !startsWith high.key "lessThan" then
      .error ⟨"Can only combine value filters representing valid range boundaries ex. greaterThan[orEqualto] and lessThan[orEqualTo]"⟩
    else .ok [low, high]
  | _ :: _ :: _ :: _ => .error ⟨"Cannot combine more than 2 value filters"⟩
  | _ => .ok ops

def compareFilter (type : ValueFilterType) (op : CompareOp) (value : ScalarValue) :
    Except JsError AllValueFilter :=
  .ok (.compare type op value)

def parseValueFilter : ApiValueFilter → Except JsError AllValueFilter
  | .isNull value => .ok (.null (getValueType (.boolean value)) value)
  | .equalTo value => compareFilter (getValueType value) .eq value
  | .notEqualTo value => compareFilter (getValueType value) .ne value
  | .lessThan value => compareFilter (getNonBooleanValueType value).toValueFilterType .lt value
  | .lessThanOrEqualTo value =>
    compareFilter (getNonBooleanValueType value).toValueFilterType .le value
  | .greaterThan value => compareFilter (getNonBooleanValueType value).toValueFilterType .gt value
  | .greaterThanOrEqualTo value =>
    compareFilter (getNonBooleanValueType value).toValueFilterType .ge value
  | .inArray [] => .error ⟨"In query specified without array values"⟩
  | .inArray (first :: rest) => .ok (.inArray (getNonBooleanValueType first) (first :: rest))
  | .notIn [] => .error ⟨"Not In query specified without array values"⟩
  | .notIn (first :: rest) => .ok (.nin (getNonBooleanValueType first) (first :: rest))
  | .other key => .error ⟨"Invalid op " ++ key⟩

def parseField (field : String × List ApiValueFilter) :
    Except JsError (String × List AllValueFilter) := do
  let childFilters ← validateCombinedOps field.2
  let entries ← childFilters.mapM parseValueFilter
  return (field.1, entries)

def parseObjectFilter (filter : ApiObjectFilter) :
    Except JsError (List (String × List AllValueFilter)) :=
  filter.mapM parseField

/-- Several entries of a key are combined via "and". -/
def whereOfKey (entry : String × List AllValueFilter) : QueryFilters :=
  match entry.2 with
  | first :: second :: rest =>
    .and ((first :: second :: rest).map fun value => .where [(entry.1, some value)])
  | single => .where [(entry.1, single.head?)]

/-- Several keys are combined via "and". -/
def combineKeys (childWhereValues : List QueryFilters) : QueryFilters :=
  match childWhereValues with
  | [] => .undefined
  | [single] => single
  | many => .and many

mutual
def parseQueryFilters : ApiQueryFilters → Except JsError QueryFilters
  | .where value => do
    let parsed ← parseObjectFilter value
    return combineKeys (parsed.map whereOfKey)
  | .and value => do
    let value ← parseAll value
    return .and value
  | .or value => do
    let value ← parseAll value
    return .or value
  | .not value => do
    let value ← parseQueryFilters value
    return .not value
  | .other keys =>
    if keys.length > 1 then
      throw ⟨"Only one of where, and, or, and not can be used per query filter level"⟩
    else throw ⟨"Invalid query: " ++ keys.headD "undefined"⟩

/-- `map(parseQueryFilters)`. -/
def parseAll : List ApiQueryFilters → Except JsError (List QueryFilters)
  | [] => return []
  | filter :: filters => do
    let parsed ← parseQueryFilters filter
    let rest ← parseAll filters
    return parsed :: rest
end

end QueryFilterParser

end Ceramic
