import Ceramic.AcceptedFilters
import Ceramic.InsertionOrder
import Ceramic.Library.SqlText

/-! The raw SQL that a query is put together from, as it is handed to Knex, and the field names and strings
in it. -/
namespace Ceramic

open ThreeValued QueryFilterParser QueryFilterConverter SqlText

namespace InsertionOrder

def ComparisonSign.symbol : ComparisonSign → String
  | .gt => ">"
  | .lt => "<"

/-- The raw conditions of `applyCursor`, with a placeholder for the value. -/
def applyCursorRaw (cursor : CursorData) (isReverseOrder : Bool) (sorting : Sorting) : List String :=
  match cursor.value with
  | .timestamp _ => []
  | .content value => value.flatMap fun (key, _) =>
    let field := contentKey key
    let sign := getComparisonSign ((sorting.lookup key).getD .ASC) isReverseOrder
    [field ++ " " ++ sign.symbol ++ " ?", field ++ " = ?"]

def orderText : SortOrder → String
  | .ASC => "ASC"
  | .DESC => "DESC"

/-- The raw columns of `applySorting`. -/
def applySortingRaw (isReverseOrder : Bool) (sorting : Sorting) : List String :=
  sorting.map fun (field, order) =>
    contentKey field ++ " " ++ orderText (if isReverseOrder then REVERSE_ORDER order else order)

end InsertionOrder

def codePiece (text : String) : Piece := .code text.toList

/-- What `contentKey` stands for. -/
def contentKeyPieces (field : String) : List Piece := [codePiece "stream_content->>", .quoted field.toList]

theorem contentKey_written (field : String) :
    (contentKey field).toList = (contentKeyPieces field).flatMap Piece.written := by
  simp [contentKey, DATA_FIELD, contentKeyPieces, codePiece, Piece.written, quote]

/-- What a value stands for; a string stands for a literal wherever it is. -/
def valuePiece (numberText : Rat → String) (cast : Cast) : ScalarValue → Piece
  | .string s => if cast = .varchar then .quoted s.toList else .bare s.toList
  | value =>
    if cast = .varchar then .quoted (valueText numberText value).toList
    else .code (valueText numberText value).toList

theorem literalText_written (numberText : Rat → String) (cast : Cast) (value : ScalarValue) :
    (literalText numberText cast value).toList = (valuePiece numberText cast value).written := by
  unfold literalText
  cases value <;> by_cases quoted : cast = .varchar <;> simp [valuePiece, valueText, quoted, Piece.written, quote]

namespace RawCondition

def pieces (numberText : Rat → String) : RawCondition → List Piece
  | .nullCheck field isNull =>
    contentKeyPieces field ++ [codePiece (if isNull then " is null" else " is not null")]
  | .compare field cast op value =>
    codePiece "cast(" :: contentKeyPieces field ++
      [codePiece (" as " ++ cast.name ++ ")" ++ op.symbol), valuePiece numberText cast value]
  | .membership field cast negated values =>
    codePiece "cast(" :: contentKeyPieces field ++
      codePiece (" as " ++ cast.name ++ ")" ++ (if negated then " not in " else " in ") ++ "(") ::
        ((values.map (valuePiece numberText cast)).intersperse (codePiece ",") ++ [codePiece ")"])

theorem text_written (numberText : Rat → String) (condition : RawCondition) :
    (condition.text numberText).toList = (condition.pieces numberText).flatMap Piece.written := by
  cases condition with
  | nullCheck field isNull =>
    change (contentKey field ++ _).toList = (contentKeyPieces field ++ _).flatMap Piece.written
    simp only [contentKey_written, codePiece, Piece.written, String.toList_append, List.flatMap_append,
      List.flatMap_cons, List.flatMap_nil, List.append_nil]
  | compare field cast op value =>
    change ("cast(" ++ contentKey field ++ _ ++ _ ++ _ ++ _ ++ literalText numberText cast value).toList =
      (codePiece "cast(" :: contentKeyPieces field ++ _).flatMap Piece.written
    simp only [literalText_written, contentKey_written, codePiece, Piece.written, String.toList_append,
      List.flatMap_append, List.flatMap_cons, List.flatMap_nil, List.cons_append, List.append_assoc, List.append_nil]
  | membership field cast negated values =>
    have list : (",".intercalate (values.map (literalText numberText cast))).toList =
        ((values.map (valuePiece numberText cast)).intersperse (codePiece ",")).flatMap Piece.written := by
      rw [String.toList_intercalate, written_intersperse, List.map_map, List.map_map]
      congr 1
      exact List.map_congr_left fun value _ => literalText_written numberText cast value
    change ("cast(" ++ contentKey field ++ _ ++ _ ++ _ ++ _ ++ _ ++ _ ++ ")").toList =
      (codePiece "cast(" :: contentKeyPieces field ++ codePiece _ :: (_ ++ [codePiece ")"])).flatMap Piece.written
    simp only [list, contentKey_written, codePiece, Piece.written, String.toList_append,
      List.flatMap_append, List.flatMap_cons, List.flatMap_nil, List.cons_append, List.append_assoc, List.append_nil]

end RawCondition

/-- The text that JavaScript has for a number has no quote. -/
def PlainNumbers (numberText : Rat → String) : Prop := ∀ n, quote ∉ (numberText n).toList

section

variable {numberText : Rat → String}

theorem valuePiece_code (plain : PlainNumbers numberText) {cast : Cast} {value : ScalarValue} {text : List Char}
    (isCode : valuePiece numberText cast value = .code text) : quote ∉ text := by
  cases value with
  | string s => by_cases quoted : cast = .varchar <;> simp [valuePiece, quoted] at isCode
  | boolean b =>
    by_cases quoted : cast = .varchar
    · simp [valuePiece, quoted] at isCode
    · simp only [valuePiece, if_neg quoted, Piece.code.injEq] at isCode
      subst isCode
      cases b
      · exact (by decide : quote ∉ "false".toList)
      · exact (by decide : quote ∉ "true".toList)
  | number n =>
    by_cases quoted : cast = .varchar
    · simp [valuePiece, quoted] at isCode
    · simp only [valuePiece, if_neg quoted, Piece.code.injEq] at isCode
      subst isCode
      exact plain n

theorem valuePiece_apart (plain : PlainNumbers numberText) (cast : Cast) (value : ScalarValue) :
    Apart [valuePiece numberText cast value] := by
  cases piece : valuePiece numberText cast value with
  | code text => exact ⟨valuePiece_code plain piece, trivial⟩
  | quoted value => exact ⟨trivial, trivial⟩
  | bare value => exact ⟨trivial, trivial⟩

/-- The parts of a condition on a field: what stands behind the field's name begins with code. -/
theorem contentKeyPieces_apart (field : String) {behind : List Piece} (begins : BeginsWithCode behind)
    (apart : Apart behind) : Apart (contentKeyPieces field ++ behind) :=
  ⟨by decide, begins, apart⟩

/-- The code between a field and what it is compared to. -/
theorem plain_comparison (cast : Cast) {behind : String} (plain : quote ∉ behind.toList) :
    quote ∉ (" as " ++ cast.name ++ ")" ++ behind).toList := by
  have name : quote ∉ cast.name.toList := by cases cast <;> decide
  have front : quote ∉ " as ".toList := by decide
  have close : quote ∉ ")".toList := by decide
  simp only [String.toList_append, List.mem_append, not_or]
  exact ⟨⟨⟨front, name⟩, close⟩, plain⟩

theorem RawCondition.pieces_apart (plain : PlainNumbers numberText) (condition : RawCondition) :
    Apart (condition.pieces numberText) := by
  cases condition with
  | nullCheck field isNull =>
    refine contentKeyPieces_apart field ?_ ⟨?_, trivial⟩
    · cases isNull <;> simp [BeginsWithCode, codePiece]
    · cases isNull <;> decide
  | compare field cast op value =>
    refine ⟨by decide, contentKeyPieces_apart field ?_ ⟨?_, valuePiece_apart plain cast value⟩⟩
    · simp [BeginsWithCode, codePiece]
    · exact plain_comparison cast (by cases op <;> decide)
  | membership field cast negated values =>
    refine ⟨by decide, contentKeyPieces_apart field ?_ ⟨?_, ?_⟩⟩
    · simp [BeginsWithCode, codePiece]
    · rw [String.append_assoc]
      exact plain_comparison cast (by cases negated <;> decide)
    · refine apart_intersperse (by decide) (fun text member => ?_) ?_ ⟨by decide, trivial⟩
      · obtain ⟨value, _, isCode⟩ := List.mem_map.mp member
        exact valuePiece_code plain isCode
      · simp [BeginsWithCode, codePiece]

end

/-- A field name or a string without a quote in it. -/
def Unquoted (s : String) : Prop := quote ∉ s.toList

/-- A string is written between quotes and has none in it. -/
def ScalarValue.LiteralAs (cast : Cast) : ScalarValue → Prop
  | .string s => cast = .varchar ∧ Unquoted s
  | _ => True

/-- The field name and the strings of a condition can be written as the code does it. -/
def RawCondition.Clean : RawCondition → Prop
  | .nullCheck field _ => Unquoted field
  | .compare field cast _ value => Unquoted field ∧ value.LiteralAs cast
  | .membership field cast _ values => Unquoted field ∧ ∀ value ∈ values, value.LiteralAs cast

/-- The text is read as the condition is meant: the field name and each string are one literal that denotes it, and
nothing else is a literal or code that was not one of the template. -/
def RawCondition.Faithful (numberText : Rat → String) (condition : RawCondition) : Prop :=
  lex (condition.text numberText).toList = some ((condition.pieces numberText).flatMap Piece.tokens)

section

variable {numberText : Rat → String}

theorem valuePiece_faithful (plain : PlainNumbers numberText) (cast : Cast) (value : ScalarValue) :
    (valuePiece numberText cast value).Faithful ↔ value.LiteralAs cast := by
  by_cases quoted : cast = .varchar
  · cases value with
    | string s => simp [valuePiece, quoted, Piece.Faithful, ScalarValue.LiteralAs, Unquoted]
    | boolean b =>
      refine iff_of_true ?_ trivial
      simp only [valuePiece, if_pos quoted, Piece.Faithful]
      cases b
      · exact (by decide : quote ∉ "false".toList)
      · exact (by decide : quote ∉ "true".toList)
    | number n =>
      refine iff_of_true ?_ trivial
      simp only [valuePiece, if_pos quoted, Piece.Faithful]
      exact plain n
  · cases value <;> simp [valuePiece, quoted, Piece.Faithful, ScalarValue.LiteralAs]

theorem contentKeyPieces_faithful (field : String) :
    (∀ piece ∈ contentKeyPieces field, piece.Faithful) ↔ Unquoted field := by
  simp [contentKeyPieces, codePiece, Piece.Faithful, Unquoted]

/-- A condition is read as it is meant if its field name and its strings have no quotes and the strings are written
between quotes. -/
theorem RawCondition.faithful_iff (plain : PlainNumbers numberText) (condition : RawCondition) :
    condition.Faithful numberText ↔ condition.Clean := by
  have read := lex_written_iff (separated_of_apart (condition.pieces_apart plain))
  unfold RawCondition.Faithful
  rw [text_written, read]
  cases condition with
  | nullCheck field isNull =>
    rw [pieces, List.forall_mem_append, contentKeyPieces_faithful, Clean]
    simp [codePiece, Piece.Faithful]
  | compare field cast op value =>
    have parts : (∀ piece ∈ codePiece "cast(" :: contentKeyPieces field ++
        [codePiece (" as " ++ cast.name ++ ")" ++ op.symbol), valuePiece numberText cast value], piece.Faithful) ↔
        (∀ piece ∈ contentKeyPieces field, piece.Faithful) ∧ (valuePiece numberText cast value).Faithful := by
      rw [List.cons_append, List.forall_mem_cons, List.forall_mem_append]
      simp [codePiece, Piece.Faithful]
    rw [pieces, parts, contentKeyPieces_faithful, valuePiece_faithful plain, Clean]
  | membership field cast negated values =>
    have list : (∀ piece ∈ (values.map (valuePiece numberText cast)).intersperse (codePiece ","), piece.Faithful) ↔
        ∀ value ∈ values, value.LiteralAs cast := by
      constructor
      · intro all value member
        exact (valuePiece_faithful plain cast value).mp (all _ (mem_intersperse.mpr (.inl (List.mem_map_of_mem member))))
      · intro all piece member
        rcases mem_intersperse.mp member with isValue | ⟨rfl, _⟩
        · obtain ⟨value, inValues, rfl⟩ := List.mem_map.mp isValue
          exact (valuePiece_faithful plain cast value).mpr (all value inValues)
        · trivial
    rw [pieces, List.cons_append, List.forall_mem_cons, List.forall_mem_append, List.forall_mem_cons,
      List.forall_mem_append, contentKeyPieces_faithful, list, Clean]
    simp [codePiece, Piece.Faithful]

end

mutual
/-- The raw conditions in a statement. -/
def Statement.conditions : Statement → List RawCondition
  | .raw _ _ condition => [condition]
  | .wrapped _ _ group => Statement.allConditions group

def Statement.allConditions : List Statement → List RawCondition
  | [] => []
  | statement :: group => statement.conditions ++ Statement.allConditions group
end

theorem allConditions_cons (statement : Statement) (group : List Statement) :
    Statement.allConditions (statement :: group) = statement.conditions ++ Statement.allConditions group := rfl

theorem allConditions_append (group more : List Statement) :
    Statement.allConditions (group ++ more) = Statement.allConditions group ++ Statement.allConditions more := by
  induction group with
  | nil => rfl
  | cons statement group ih =>
    rw [List.cons_append, allConditions_cons, allConditions_cons, ih, List.append_assoc]

/-- A function for a builder adds some raw conditions to those that it has. -/
def Adds (func : WhereFunc) (conditions : List RawCondition) : Prop :=
  ∀ query, Statement.allConditions (func query) = Statement.allConditions query ++ conditions

theorem adds_id : Adds id [] := fun _ => (List.append_nil _).symm

namespace DBQuery

/-- A group of conditions is added, whichever way it is joined to the others. -/
theorem conditions_wrapped (query : DBQuery) (negated : Bool) (joined : Connective) (func : WhereFunc) :
    Statement.allConditions (query ++ [.wrapped negated joined (func [])]) =
      Statement.allConditions query ++ Statement.allConditions (func []) := by
  rw [allConditions_append, allConditions_cons]
  exact congrArg (Statement.allConditions query ++ ·) (List.append_nil _)

theorem conditions_where (query : DBQuery) (func : WhereFunc) : Statement.allConditions (where_ query func) =
    Statement.allConditions query ++ Statement.allConditions (func []) := conditions_wrapped query false .and func

theorem conditions_orWhere (query : DBQuery) (func : WhereFunc) : Statement.allConditions (orWhere query func) =
    Statement.allConditions query ++ Statement.allConditions (func []) := conditions_wrapped query false .or func

theorem conditions_whereNot (query : DBQuery) (func : WhereFunc) : Statement.allConditions (whereNot query func) =
    Statement.allConditions query ++ Statement.allConditions (func []) := conditions_wrapped query true .and func

theorem conditions_whereRaw (condition : RawCondition) :
    Statement.allConditions (whereRaw [] condition) = [condition] := rfl

/-- However a condition is joined to the others. -/
theorem conditions_joined (query : DBQuery) (func : WhereFunc) (first : Bool) (combinator : Option Connective) :
    Statement.allConditions (if first then where_ query func
      else if combinator = some .or then orWhere query func else andWhere query func) =
      Statement.allConditions query ++ Statement.allConditions (func []) := by
  split
  · exact conditions_where query func
  · split
    · exact conditions_orWhere query func
    · exact conditions_where query func

end DBQuery

namespace QueryFilterConverter

open DBQuery

theorem conditions_handleQuery (query : DBQuery) (func : WhereFunc) (first negated : Bool)
    (combinator : Option Connective) : Statement.allConditions (handleQuery query func first negated combinator) =
      Statement.allConditions query ++ Statement.allConditions (func []) := by
  unfold handleQuery
  cases negated with
  | false =>
    rw [if_neg Bool.false_ne_true, conditions_where, conditions_joined]
    rfl
  | true =>
    rw [if_pos rfl, conditions_whereNot, conditions_joined]
    rfl

theorem conditions_handleIn (query : DBQuery) (field : String) (tpe : NonBooleanValueFilterType)
    (value : List ScalarValue) (first negated : Bool) (combinator : Option Connective) :
    Statement.allConditions (handleIn query field tpe value first negated combinator) =
      Statement.allConditions query ++ [.membership field (nonBooleanTypeAsCast tpe) negated value] := by
  unfold handleIn
  exact (conditions_joined query _ first combinator).trans (congrArg _ (conditions_whereRaw _))

/-- The field and the strings of a parsed condition can be written as the code does it. -/
def CleanAt (key : String) : AllValueFilter → Prop
  | .null _ _ => Unquoted key
  | .compare _ _ value => Unquoted key ∧ value.LiteralAs .varchar
  | .inArray tpe values | .nin tpe values =>
    Unquoted key ∧ ∀ value ∈ values, value.LiteralAs (nonBooleanTypeAsCast tpe)

/-- The conditions that a tree is converted to are clean exactly if something holds. -/
def Cleans (tree : QueryFilters) (P : Prop) : Prop :=
  ∀ combinator negated converted, convert combinator negated tree = .ok converted →
    ∃ conditions, Adds converted.whereFunc conditions ∧ ((∀ condition ∈ conditions, condition.Clean) ↔ P)

theorem cleans_values (key : String) (tpe : NonBooleanValueFilterType) {values : List ScalarValue} {filter : AllValueFilter}
    (isList : filter = .inArray tpe values ∨ filter = .nin tpe values) :
    Cleans (.where [(key, some filter)]) (Unquoted key ∧ ∀ value ∈ values, value.LiteralAs (nonBooleanTypeAsCast tpe)) := by
  intro combinator negated converted h
  rw [convert] at h
  cases values with
  | nil => rcases isList with rfl | rfl <;> cases h
  | cons first rest =>
    refine ⟨[.membership key (nonBooleanTypeAsCast tpe) negated (first :: rest)], fun query => ?_, ?_⟩
    · rcases isList with rfl | rfl <;> obtain rfl := Except.ok.inj h <;>
        exact conditions_handleIn query key tpe (first :: rest) true negated combinator
    · simp only [List.forall_mem_singleton, RawCondition.Clean]

theorem cleans_leaf (key : String) (filter : AllValueFilter) :
    Cleans (.where [(key, some filter)]) (CleanAt key filter) := by
  cases filter with
  | null type value =>
    intro combinator negated converted h
    rw [convert] at h
    obtain rfl := Except.ok.inj h
    refine ⟨[.nullCheck key value], fun query => ?_, by simp [RawCondition.Clean, CleanAt]⟩
    exact (conditions_handleQuery query _ true negated combinator).trans (congrArg _ (conditions_whereRaw _))
  | compare type op value =>
    intro combinator negated converted h
    rw [convert] at h
    obtain rfl := Except.ok.inj h
    refine ⟨[.compare key (typeAsCast (getValueType value)) op value], fun query => ?_, ?_⟩
    · exact (conditions_handleQuery query _ true negated combinator).trans (congrArg _ (conditions_whereRaw _))
    · cases value <;> simp [RawCondition.Clean, CleanAt, ScalarValue.LiteralAs, getValueType, getNonBooleanValueType,
        NonBooleanValueFilterType.toValueFilterType, typeAsCast, nonBooleanTypeAsCast]
  | inArray tpe values => exact cleans_values key tpe (.inl rfl)
  | nin tpe values => exact cleans_values key tpe (.inr rfl)

theorem cleans_not {tree : QueryFilters} {P : Prop} (cleans : Cleans tree P) : Cleans (.not tree) P := by
  intro combinator negated converted h
  rw [convert] at h
  exact cleans combinator (!negated) converted h

/-- The functions of several filters, one after the other. -/
theorem adds_combined {converted : List ConvertedQueryFilter} {conditions : List (List RawCondition)}
    (each : List.Forall₂ (fun res added => Adds res.whereFunc added) converted conditions) (combinator : Connective)
    (negated : Bool) : Adds (handleCombinator combinator converted negated).whereFunc conditions.flatten := by
  have together (old : WhereFunc) (before : List RawCondition) (adds : Adds old before) :
      Adds (converted.foldl (fun old res bldr =>
        if combinator = .or then orWhere (old bldr) res.whereFunc else andWhere (old bldr) res.whereFunc) old)
        (before ++ conditions.flatten) := by
    induction each generalizing old before with
    | nil => simpa using adds
    | @cons res added converted conditions first _ ih =>
      rw [List.foldl_cons, List.flatten_cons, ← List.append_assoc]
      refine ih _ _ fun query => ?_
      have inner : Statement.allConditions (res.whereFunc []) = added := first []
      have joined := conditions_joined (old query) res.whereFunc false (some combinator)
      simp only [Bool.false_eq_true, if_false, Option.some.injEq] at joined
      rw [joined, adds query, inner, List.append_assoc]
  have func := together id [] adds_id
  unfold handleCombinator
  cases negated with
  | false => exact func
  | true =>
    intro query
    exact (conditions_whereNot query _).trans (congrArg _ (func []))

/-- Several trees under one node. -/
theorem cleans_all {trees : List QueryFilters} {Ps : List Prop} (each : List.Forall₂ Cleans trees Ps)
    (combinator : Connective) {converted : List ConvertedQueryFilter} (h : convertAll combinator trees = .ok converted) :
    ∃ conditions, List.Forall₂ (fun res added => Adds res.whereFunc added) converted conditions ∧
      ((∀ condition ∈ conditions.flatten, condition.Clean) ↔ ∀ P ∈ Ps, P) := by
  induction each generalizing converted with
  | nil =>
    obtain rfl : [] = converted := Except.ok.inj h
    exact ⟨[], .nil, by simp⟩
  | @cons tree P trees Ps first _ ih =>
    rw [convertAll] at h
    obtain ⟨res, converts, h⟩ := bind_eq_ok.mp h
    obtain ⟨rest, convertsRest, returned⟩ := bind_eq_ok.mp h
    obtain rfl : res :: rest = converted := Except.ok.inj returned
    obtain ⟨added, adds, clean⟩ := first _ _ _ converts
    obtain ⟨conditions, addsRest, cleanRest⟩ := ih convertsRest
    refine ⟨added :: conditions, .cons adds addsRest, ?_⟩
    rw [List.flatten_cons, List.forall_mem_append, clean, cleanRest, List.forall_mem_cons]

theorem cleans_and {trees : List QueryFilters} {Ps : List Prop} (each : List.Forall₂ Cleans trees Ps) :
    Cleans (.and trees) (∀ P ∈ Ps, P) := by
  intro combinator negated converted h
  rw [convert] at h
  obtain ⟨results, converts, returned⟩ := bind_eq_ok.mp h
  obtain rfl := Except.ok.inj returned
  obtain ⟨conditions, adds, clean⟩ := cleans_all each .and converts
  exact ⟨conditions.flatten, adds_combined adds .and negated, clean⟩

theorem cleans_or {trees : List QueryFilters} {Ps : List Prop} (each : List.Forall₂ Cleans trees Ps) :
    Cleans (.or trees) (∀ P ∈ Ps, P) := by
  intro combinator negated converted h
  rw [convert] at h
  obtain ⟨results, converts, returned⟩ := bind_eq_ok.mp h
  obtain rfl := Except.ok.inj returned
  obtain ⟨conditions, adds, clean⟩ := cleans_all each .or converts
  exact ⟨conditions.flatten, adds_combined adds .or negated, clean⟩

theorem Cleans.congr {tree : QueryFilters} {P Q : Prop} (cleans : Cleans tree P) (same : P ↔ Q) : Cleans tree Q := by
  intro combinator negated converted h
  obtain ⟨conditions, adds, clean⟩ := cleans combinator negated converted h
  exact ⟨conditions, adds, clean.trans same⟩

end QueryFilterConverter

/-- A list of values is written as its first value is. -/
def listCast (values : List ScalarValue) : Cast := ApiValueFilter.truth.listCast values

/-- The field and the strings of a condition can be written as the code does it. -/
def ApiValueFilter.CleanAt (key : String) : ApiValueFilter → Prop
  | .isNull _ => Unquoted key
  | .equalTo value | .notEqualTo value | .lessThan value | .lessThanOrEqualTo value | .greaterThan value
  | .greaterThanOrEqualTo value => Unquoted key ∧ value.LiteralAs .varchar
  | .inArray values | .notIn values => Unquoted key ∧ ∀ value ∈ values, value.LiteralAs (listCast values)
  | .other _ => True

namespace QueryFilterParser

theorem cleanAt_parsed (key : String) {op : ApiValueFilter} {filter : AllValueFilter}
    (parsed : parseValueFilter op = .ok filter) : CleanAt key filter ↔ op.CleanAt key := by
  cases op with
  | inArray values =>
    cases values with
    | nil => cases parsed
    | cons first rest =>
      obtain rfl := Except.ok.inj parsed
      rfl
  | notIn values =>
    cases values with
    | nil => cases parsed
    | cons first rest =>
      obtain rfl := Except.ok.inj parsed
      rfl
  | other key => cases parsed
  | _ =>
    obtain rfl := Except.ok.inj parsed
    rfl

theorem cleans_whereOfKey {field : String × List ApiValueFilter} {entry : String × List AllValueFilter}
    (parsed : parseField field = .ok entry) : Cleans (whereOfKey entry) (∀ op ∈ field.2, op.CleanAt field.1) := by
  obtain ⟨sorted, validated, h⟩ := bind_eq_ok.mp parsed
  obtain ⟨values, each, returned⟩ := bind_eq_ok.mp h
  obtain rfl : (field.1, values) = entry := Except.ok.inj returned
  have each := mapM_ok each
  have same : (∀ op ∈ field.2, op.CleanAt field.1) ↔ ∀ filter ∈ values, CleanAt field.1 filter := by
    have sorted_iff (op : ApiValueFilter) := (validateCombinedOps_perm validated).mem_iff (a := op)
    constructor
    · intro clean filter member
      obtain ⟨op, inSorted, isParsed⟩ := exists_of_forall₂ each.flip member
      exact (cleanAt_parsed field.1 isParsed).mpr (clean op ((sorted_iff op).mp inSorted))
    · intro clean op member
      obtain ⟨filter, inValues, isParsed⟩ := exists_of_forall₂ each ((sorted_iff op).mpr member)
      exact (cleanAt_parsed field.1 isParsed).mp (clean filter inValues)
  refine Cleans.congr ?_ same.symm
  rcases values with _ | ⟨first, _ | ⟨second, rest⟩⟩
  · intro combinator negated converted h
    rw [whereOfKey, convert] at h
    cases h
  · exact (cleans_leaf field.1 first).congr (by simp)
  · have all : List.Forall₂ Cleans ((first :: second :: rest).map fun value => .where [(field.1, some value)])
        ((first :: second :: rest).map (CleanAt field.1)) := by
      rw [List.forall₂_map_left_iff, List.forall₂_map_right_iff, List.forall₂_same]
      exact fun filter _ => cleans_leaf field.1 filter
    refine (cleans_and all).congr ?_
    rw [List.forall_mem_map]

theorem cleans_combineKeys {children : List QueryFilters} {Ps : List Prop} (each : List.Forall₂ Cleans children Ps) :
    Cleans (combineKeys children) (∀ P ∈ Ps, P) := by
  cases each with
  | nil =>
    intro combinator negated converted h
    rw [combineKeys, convert] at h
    cases h
  | @cons first P children Ps here rest =>
    cases rest with
    | nil => exact here.congr (by rw [List.forall_mem_singleton])
    | cons second rest => exact cleans_and (.cons here (.cons second rest))

end QueryFilterParser

/-- The field names and the strings of a part can be written as the code does it. -/
def ApiQueryFilters.CleanPart : ApiQueryFilters → Prop
  | .where fields => ∀ field ∈ fields, ∀ op ∈ field.2, op.CleanAt field.1
  | _ => True

namespace QueryFilterParser

theorem cleans_parsed {filter : ApiQueryFilters} {tree : QueryFilters} (parsed : parseQueryFilters filter = .ok tree) :
    Cleans tree (filter.Everywhere ApiQueryFilters.CleanPart) := by
  have children {filters : List ApiQueryFilters} {trees : List QueryFilters} (parsed : parseAll filters = .ok trees)
      (ih : ∀ child ∈ filters, ∀ {tree}, parseQueryFilters child = .ok tree →
        Cleans tree (child.Everywhere ApiQueryFilters.CleanPart)) :
      List.Forall₂ Cleans trees (filters.map fun child => child.Everywhere ApiQueryFilters.CleanPart) := by
    rw [parseAll_eq_mapM] at parsed
    have each := mapM_ok parsed
    rw [List.forall₂_map_right_iff]
    clear parsed
    induction each with
    | nil => exact .nil
    | @cons child tree filters trees first _ rest =>
      refine .cons (ih child List.mem_cons_self first) (rest fun other member => ih other ?_)
      exact List.mem_cons_of_mem _ member
  induction filter using ApiQueryFilters.induction generalizing tree with
  | fields value =>
    rw [parseQueryFilters] at parsed
    obtain ⟨entries, found, returned⟩ := bind_eq_ok.mp parsed
    obtain rfl : combineKeys (entries.map whereOfKey) = tree := Except.ok.inj returned
    have each : List.Forall₂ Cleans (entries.map whereOfKey)
        (value.map fun field => ∀ op ∈ field.2, op.CleanAt field.1) := by
      rw [List.forall₂_map_left_iff, List.forall₂_map_right_iff]
      exact (mapM_ok found).flip.imp fun entry field isParsed => cleans_whereOfKey isParsed
    refine (cleans_combineKeys each).congr ?_
    rw [ApiQueryFilters.everywhere_where, List.forall_mem_map, ApiQueryFilters.CleanPart]
  | all filters ih =>
    rw [parseQueryFilters] at parsed
    obtain ⟨trees, found, returned⟩ := bind_eq_ok.mp parsed
    obtain rfl : QueryFilters.and trees = tree := Except.ok.inj returned
    refine (cleans_and (children found ih)).congr ?_
    rw [List.forall_mem_map, ApiQueryFilters.everywhere_and,
      and_iff_right (show ApiQueryFilters.CleanPart (.and filters) from trivial)]
  | any filters ih =>
    rw [parseQueryFilters] at parsed
    obtain ⟨trees, found, returned⟩ := bind_eq_ok.mp parsed
    obtain rfl : QueryFilters.or trees = tree := Except.ok.inj returned
    refine (cleans_or (children found ih)).congr ?_
    rw [List.forall_mem_map, ApiQueryFilters.everywhere_or,
      and_iff_right (show ApiQueryFilters.CleanPart (.or filters) from trivial)]
  | negation filter ih =>
    rw [parseQueryFilters] at parsed
    obtain ⟨child, found, returned⟩ := bind_eq_ok.mp parsed
    obtain rfl : QueryFilters.not child = tree := Except.ok.inj returned
    refine (cleans_not (ih found)).congr ?_
    rw [ApiQueryFilters.everywhere_not,
      and_iff_right (show ApiQueryFilters.CleanPart (.not filter) from trivial)]
  | others keys =>
    rw [parseQueryFilters] at parsed
    split at parsed <;> cases parsed

end QueryFilterParser

/-- A text is read as its parts are meant. -/
def ReadsAs (text : String) (pieces : List Piece) : Prop := lex text.toList = some (pieces.flatMap Piece.tokens)

/-- The text for a field with code behind it. -/
theorem contentKey_reads {field behind : String} (code : behind.toList ≠ [] ∧ quote ∉ behind.toList) :
    ReadsAs (contentKey field ++ behind) (contentKeyPieces field ++ [codePiece behind]) ↔ Unquoted field := by
  have apart := contentKeyPieces_apart field (show BeginsWithCode [codePiece behind] from code.1) ⟨code.2, trivial⟩
  have written : (contentKey field ++ behind).toList =
      (contentKeyPieces field ++ [codePiece behind]).flatMap Piece.written := by
    simp [contentKey_written, codePiece, Piece.written]
  unfold ReadsAs
  rw [written, lex_written_iff (separated_of_apart apart), List.forall_mem_append, contentKeyPieces_faithful]
  simp [codePiece, Piece.Faithful]

namespace InsertionOrder

/-- What the conditions of `applyCursorRaw` stand for. -/
def applyCursorPieces (cursor : CursorData) (isReverseOrder : Bool) (sorting : Sorting) : List (List Piece) :=
  match cursor.value with
  | .timestamp _ => []
  | .content value => value.flatMap fun (key, _) =>
    let sign := getComparisonSign ((sorting.lookup key).getD .ASC) isReverseOrder
    [contentKeyPieces key ++ [codePiece (" " ++ sign.symbol ++ " ?")], contentKeyPieces key ++ [codePiece " = ?"]]

def applySortingPieces (isReverseOrder : Bool) (sorting : Sorting) : List (List Piece) :=
  sorting.map fun (field, order) => contentKeyPieces field ++
    [codePiece (" " ++ orderText (if isReverseOrder then REVERSE_ORDER order else order))]

/-- The fields that a cursor has values of. -/
def cursorFields (cursor : CursorData) : List String :=
  match cursor.value with
  | .timestamp _ => []
  | .content value => value.map (·.1)

theorem applySorting_reads (isReverseOrder : Bool) (sorting : Sorting) :
    List.Forall₂ ReadsAs (applySortingRaw isReverseOrder sorting) (applySortingPieces isReverseOrder sorting) ↔
      ∀ field ∈ sorting, Unquoted field.1 := by
  unfold applySortingRaw applySortingPieces
  rw [List.forall₂_map_left_iff, List.forall₂_map_right_iff, List.forall₂_same]
  refine forall₂_congr fun field _ => ?_
  obtain ⟨field, order⟩ := field
  dsimp only
  rw [String.append_assoc]
  refine contentKey_reads ?_
  generalize (if isReverseOrder then REVERSE_ORDER order else order) = order
  cases order <;> exact ⟨by decide, by decide⟩

theorem applyCursor_reads (cursor : CursorData) (isReverseOrder : Bool) (sorting : Sorting) :
    List.Forall₂ ReadsAs (applyCursorRaw cursor isReverseOrder sorting)
      (applyCursorPieces cursor isReverseOrder sorting) ↔ ∀ field ∈ cursorFields cursor, Unquoted field := by
  have next (key : String) (sign : ComparisonSign) : ReadsAs (contentKey key ++ " " ++ sign.symbol ++ " ?")
      (contentKeyPieces key ++ [codePiece (" " ++ sign.symbol ++ " ?")]) ↔ Unquoted key := by
    have same : contentKey key ++ " " ++ sign.symbol ++ " ?" = contentKey key ++ (" " ++ sign.symbol ++ " ?") := by
      simp only [String.append_assoc]
    rw [same]
    refine contentKey_reads ?_
    cases sign <;> exact ⟨by decide, by decide⟩
  have tied (key : String) : ReadsAs (contentKey key ++ " = ?") (contentKeyPieces key ++ [codePiece " = ?"]) ↔
      Unquoted key := contentKey_reads ⟨by decide, by decide⟩
  unfold applyCursorRaw applyCursorPieces cursorFields
  cases cursor.value with
  | timestamp value => simp
  | content value =>
    dsimp only
    induction value with
    | nil => simp
    | cons first value ih =>
      simp only [List.flatMap_cons, List.map_cons, List.forall_mem_cons, List.cons_append, List.nil_append,
        List.forall₂_cons, ih, next, tied]
      tauto

end InsertionOrder

/-- Only a `where` without fields gives no tree. -/
theorem parsed_undefined {filter : ApiQueryFilters} (parsed : parseQueryFilters filter = .ok .undefined) :
    filter = .where [] := by
  cases filter with
  | «where» fields =>
    rw [parseQueryFilters] at parsed
    obtain ⟨entries, found, returned⟩ := bind_eq_ok.mp parsed
    have none : combineKeys (entries.map whereOfKey) = .undefined := Except.ok.inj returned
    rcases entries with _ | ⟨⟨key, values⟩, _ | ⟨second, entries⟩⟩
    · obtain rfl := List.forall₂_nil_right_iff.mp (mapM_ok found)
      rfl
    · rcases values with _ | ⟨first, _ | ⟨second, values⟩⟩ <;> cases none
    · cases none
  | and filters =>
    rw [parseQueryFilters] at parsed
    obtain ⟨children, _, returned⟩ := bind_eq_ok.mp parsed
    cases returned
  | or filters =>
    rw [parseQueryFilters] at parsed
    obtain ⟨children, _, returned⟩ := bind_eq_ok.mp parsed
    cases returned
  | not filter =>
    rw [parseQueryFilters] at parsed
    obtain ⟨child, _, returned⟩ := bind_eq_ok.mp parsed
    cases returned
  | other keys =>
    rw [parseQueryFilters] at parsed
    split at parsed <;> cases parsed

/-- The conditions that a filter is converted to are clean exactly if the filter is. -/
theorem clean_converted {filter : ApiQueryFilters} {tree : QueryFilters} {converted : ConvertedQueryFilter}
    (parsed : parseQueryFilters filter = .ok tree) (converts : convertQueryFilter tree = .ok converted) :
    (∀ condition ∈ Statement.allConditions (converted.whereFunc []), condition.Clean) ↔
      filter.Everywhere ApiQueryFilters.CleanPart := by
  by_cases missing : tree = .undefined
  · -- nothing is asked for
    subst missing
    obtain rfl := Except.ok.inj converts
    obtain rfl := parsed_undefined parsed
    have none : ApiQueryFilters.Everywhere ApiQueryFilters.CleanPart (.where []) :=
      (ApiQueryFilters.everywhere_where []).mpr fun field member => absurd member List.not_mem_nil
    exact iff_of_true (fun condition member => absurd member List.not_mem_nil) none
  · have converts : convert none false tree = .ok converted := by
      cases tree with
      | undefined => exact absurd rfl missing
      | _ => exact converts
    obtain ⟨conditions, adds, clean⟩ := cleans_parsed parsed none false converted converts
    rw [adds [], ← clean]
    rfl

/-- The raw SQL of a query is read as it is meant, with each field name and each string one literal that denotes it,
exactly if none of them has a quote, and strings in a list stand in one that begins with a string. -/
theorem sql_literals_iff {numberText : Rat → String} (plain : PlainNumbers numberText) {filter : ApiQueryFilters}
    {tree : QueryFilters} {converted : ConvertedQueryFilter} (parsed : parseQueryFilters filter = .ok tree)
    (converts : convertQueryFilter tree = .ok converted) (isReverseOrder : Bool) (sorting : Sorting)
    (cursor : CursorData) :
    ((∀ condition ∈ Statement.allConditions (converted.whereFunc []), condition.Faithful numberText) ∧
      List.Forall₂ ReadsAs (InsertionOrder.applySortingRaw isReverseOrder sorting)
        (InsertionOrder.applySortingPieces isReverseOrder sorting) ∧
      List.Forall₂ ReadsAs (InsertionOrder.applyCursorRaw cursor isReverseOrder sorting)
        (InsertionOrder.applyCursorPieces cursor isReverseOrder sorting)) ↔
    filter.Everywhere ApiQueryFilters.CleanPart ∧ (∀ field ∈ sorting, Unquoted field.1) ∧
      ∀ field ∈ InsertionOrder.cursorFields cursor, Unquoted field := by
  rw [InsertionOrder.applySorting_reads, InsertionOrder.applyCursor_reads, ← clean_converted parsed converts]
  simp only [RawCondition.faithful_iff plain]

namespace Database

theorem staffFilter_literals :
    ∃ converted, convertQueryFilter staffQuery = .ok converted ∧
      (((∀ condition ∈ Statement.allConditions (converted.whereFunc []), condition.Faithful fun _ => "0") ∧
        List.Forall₂ ReadsAs (InsertionOrder.applySortingRaw false [("name", .ASC)])
          (InsertionOrder.applySortingPieces false [("name", .ASC)]) ∧
        List.Forall₂ ReadsAs
          (InsertionOrder.applyCursorRaw ⟨"k1", .content [("name", .str "ada")]⟩ false [("name", .ASC)])
          (InsertionOrder.applyCursorPieces ⟨"k1", .content [("name", .str "ada")]⟩ false [("name", .ASC)])) ↔
      staffFilter.Everywhere ApiQueryFilters.CleanPart ∧ (∀ field ∈ [("name", SortOrder.ASC)], Unquoted field.1) ∧
        ∀ field ∈ InsertionOrder.cursorFields ⟨"k1", .content [("name", .str "ada")]⟩, Unquoted field) :=
  ⟨_, rfl, sql_literals_iff (fun _ => by decide) (rfl : parseQueryFilters staffFilter = .ok staffQuery) rfl false
    [("name", .ASC)] ⟨"k1", .content [("name", .str "ada")]⟩⟩

/-- A name that no row has; its text is a condition that every row meets. -/
def quotedName : String := "' or ''='"

theorem quotedName_changes_query :
    parseQueryFilters (.where [("name", [.equalTo (.string quotedName)])]) =
      .ok (.where [("name", some (.compare .string .eq (.string quotedName)))]) ∧
    ∃ converted, convertQueryFilter (.where [("name", some (.compare .string .eq (.string quotedName)))]) =
        .ok converted ∧
      (Statement.allConditions (converted.whereFunc [])).map (·.text fun _ => "0") =
        ["cast(stream_content->>'name' as varchar)='' or ''=''"] ∧
      ¬∀ condition ∈ Statement.allConditions (converted.whereFunc []), condition.Faithful fun _ => "0" := by
  refine ⟨rfl, _, rfl, by decide +kernel, fun faithful => ?_⟩
  have clean := (RawCondition.faithful_iff (fun _ => by decide) _).mp (faithful _ List.mem_cons_self)
  exact absurd clean.2.2 (by unfold Unquoted; decide)

end Database

end Ceramic
