import Ceramic.DatabaseIndexApi
import Ceramic.IndexConfiguration

/-! The tables of the models: how they and their indices are created, and how they are verified. Names are
texts of UTF-16 code units until they are sent to the database. -/
namespace Ceramic.Indexing

/-- A text of UTF-16 code units, which may have half of a character in it. -/
abbrev Text := List UInt16

namespace Text

def ofChar (c : Char) : Text :=
  if c.val.toNat < 0x10000 then [.ofNat c.val.toNat]
  else [.ofNat (0xD800 + (c.val.toNat - 0x10000) / 0x400), .ofNat (0xDC00 + (c.val.toNat - 0x10000) % 0x400)]

def utf16 (s : String) : Text := s.toList.flatMap ofChar

def isHigh (unit : UInt16) : Bool := decide (0xD800 ≤ unit.toNat ∧ unit.toNat < 0xDC00)

def isLow (unit : UInt16) : Bool := decide (0xDC00 ≤ unit.toNat ∧ unit.toNat < 0xE000)

/-- Half of a character is replaced. -/
def single (unit : UInt16) : Char := if isHigh unit || isLow unit then '\uFFFD' else Char.ofNat unit.toNat

def decode : Text → List Char
  | [] => []
  | [unit] => [single unit]
  | high :: low :: rest =>
    if isHigh high && isLow low then
      Char.ofNat (0x10000 + (high.toNat - 0xD800) * 0x400 + (low.toNat - 0xDC00)) :: decode rest
    else single high :: decode (low :: rest)

/-- What is sent of a text. -/
def sent (text : Text) : String := .ofList (decode text)

end Text

def byteLength (name : String) : Nat := (name.toList.map Char.utf8Size).sum

def clipped (limit : Nat) : List Char → List Char
  | [] => []
  | c :: rest => if c.utf8Size ≤ limit then c :: clipped (limit - c.utf8Size) rest else []

/-- Postgres cuts a name after 63 bytes. -/
def clip (name : String) : String := .ofList (clipped 63 name.toList)

/-- A database, and lower case. `fold` is what Postgres does to a name without quotes, `parses` whether a
statement put together from texts reads as it is meant to. -/
structure Dialect where
  type : DatabaseType
  fold : String → String
  toLowerCase : Text → Text
  parses : Text → Bool

def indexNameFromTableName (tableName : String) : String :=
  "idx_" ++ .ofList (tableName.toList.drop (tableName.toList.length - 10))

def defaultIndices (tableName : String) : List String :=
  ["stream_id", "last_anchored_at", "first_anchored_at", "created_at", "updated_at", "last_anchored_at_created_at"].map
    fun name => indexNameFromTableName tableName ++ "_" ++ name

def fieldsIndexName (idx : FieldsIndex) (table : String) : Text :=
  let fieldPath := (idx.fields.flatten.map fun p => (Text.utf16 p).take 5).intersperse (Text.utf16 "_")
  (Text.utf16 (indexNameFromTableName table ++ "_") ++ fieldPath.flatten).take 64

/-- What is told of a column. -/
def columnInfo (type : String) (maxLength : JsValue) (nullable : Bool) (defaultValue : JsValue) : JsValue :=
  .obj [("type", .str type), ("maxLength", maxLength), ("nullable", .bool nullable), ("defaultValue", defaultValue)]

namespace Knex

def string (type : DatabaseType) (length : Nat) (nullable : Bool) : JsValue :=
  match type with
  | .POSTGRES => columnInfo "character varying" (.num length) nullable .null
  | .SQLITE => columnInfo "varchar" (.str (toString length)) nullable .null

def jsonb (nullable : Bool) : JsValue := columnInfo "jsonb" .null nullable .null

def dateTime (nullable : Bool) (defaultValue : JsValue) : JsValue :=
  columnInfo "timestamp with time zone" .null nullable defaultValue

def now : JsValue := .str "CURRENT_TIMESTAMP"

def integer (nullable : Bool) : JsValue := columnInfo "integer" .null nullable .null

end Knex

/-- The columns that every model's table is created with. -/
def modelColumns : DatabaseType → JsObject
  | .POSTGRES => [("stream_id", Knex.string .POSTGRES 255 false), ("controller_did", Knex.string .POSTGRES 1024 false),
    ("stream_content", Knex.jsonb false), ("tip", Knex.string .POSTGRES 255 false), ("last_anchored_at", Knex.dateTime true .null),
    ("first_anchored_at", Knex.dateTime true .null), ("created_at", Knex.dateTime false Knex.now),
    ("updated_at", Knex.dateTime false Knex.now)]
  | .SQLITE => [("stream_id", Knex.string .SQLITE 1024 false), ("controller_did", Knex.string .SQLITE 1024 false),
    ("stream_content", Knex.string .SQLITE 255 false), ("tip", Knex.string .SQLITE 255 false),
    ("last_anchored_at", Knex.integer true), ("first_anchored_at", Knex.integer true), ("created_at", Knex.integer false),
    ("updated_at", Knex.integer false)]

namespace STRUCTURES

def RELATION_COLUMN : DatabaseType → JsValue
  | .POSTGRES => columnInfo "character varying" (.num 1024) true .null
  | .SQLITE => columnInfo "varchar" (.str "1024") true .null

def COMMON_TABLE : DatabaseType → JsObject
  | .POSTGRES => [("stream_id", columnInfo "character varying" (.num 255) false .null),
    ("controller_did", columnInfo "character varying" (.num 1024) false .null), ("stream_content", columnInfo "jsonb" .null false .null),
    ("tip", columnInfo "character varying" (.num 255) false .null),
    ("last_anchored_at", columnInfo "timestamp with time zone" .null true .null),
    ("first_anchored_at", columnInfo "timestamp with time zone" .null true .null),
    ("created_at", columnInfo "timestamp with time zone" .null false (.str "CURRENT_TIMESTAMP")),
    ("updated_at", columnInfo "timestamp with time zone" .null false (.str "CURRENT_TIMESTAMP"))]
  | .SQLITE => [("stream_id", columnInfo "varchar" (.str "1024") false .null),
    ("controller_did", columnInfo "varchar" (.str "1024") false .null), ("stream_content", columnInfo "varchar" (.str "255") false .null),
    ("tip", columnInfo "varchar" (.str "255") false .null), ("last_anchored_at", columnInfo "integer" .null true .null),
    ("first_anchored_at", columnInfo "integer" .null true .null), ("created_at", columnInfo "integer" .null false .null),
    ("updated_at", columnInfo "integer" .null false .null)]

end STRUCTURES

structure Table where
  name : String
  columns : JsObject
  indices : List String

/-- The tables of the models, and what the verification of the other tables comes to. -/
structure Catalogue where
  tables : List Table
  verifyConfigTables : Except JsError Unit

namespace Catalogue

def hasTable (db : Catalogue) (name : String) : Bool := db.tables.any fun table => table.name == name

def indexNames (db : Catalogue) : List String := db.tables.flatMap Table.indices

end Catalogue

def relationColumns (args : IndexModelArgs) : List String := (args.relations.getD []).map addColumnPrefix

/-- Names in quotes are stored up to the length that Postgres has for them. -/
def storedName : DatabaseType → String → String
  | .POSTGRES, name => clip name
  | .SQLITE, name => name

/-- Columns of one table are told apart by this. SQLite does not mind their case. -/
def columnKey : DatabaseType → String → String
  | .POSTGRES, name => clip name
  | .SQLITE, name => name.toLower

def storedIndexName (d : Dialect) (name : Text) : String :=
  match d.type with
  | .POSTGRES => clip (d.fold name.sent)
  | .SQLITE => name.sent

def extraColumns (type : DatabaseType) (args : IndexModelArgs) : JsObject :=
  (relationColumns args).map fun column => (addColumnPrefix column, Knex.string type 1024 true)

/-- The names of the key of a table, and of the indices over the columns of its relations. -/
def columnIndices (type : DatabaseType) (tableName : String) (args : IndexModelArgs) : List String :=
  let indexName := indexNameFromTableName tableName
  match type with
  | .POSTGRES => ["idx_" ++ indexName ++ "_pkey", "constr_" ++ indexName ++ "_unique"] ++
    (relationColumns args).map fun column => "idx_" ++ indexName ++ "_" ++ addColumnPrefix column
  | .SQLITE => (tableName ++ "_stream_id_unique") ::
    (relationColumns args).map fun column => "idx_" ++ tableName ++ "_" ++ addColumnPrefix column

/-- The expression that a field is indexed by. -/
def jsonIndex : DatabaseType → List String → String
  | .POSTGRES, path => "(stream_content->" ++ String.intercalate "->" (path.map fun p => "'" ++ p ++ "'") ++ ")"
  | .SQLITE, path => "json_extract(stream_content, '$." ++ String.intercalate "." path ++ "')"

def rawIndexQuery (type : DatabaseType) (tableName : String) (index : FieldsIndex) : Text :=
  Text.utf16 "CREATE INDEX " ++ fieldsIndexName index tableName ++
    Text.utf16 (" ON " ++ tableName ++ " (" ++ String.intercalate "," (index.fields.map (jsonIndex type)) ++ ")")

/-- The statements that indices are created by: the name that each is stored under. -/
def indexStatements (d : Dialect) (args : IndexModelArgs) : List (Except JsError String) :=
  let tableName := asTableName args.model
  (columnIndices d.type tableName args ++ defaultIndices tableName).map (fun name => .ok (storedName d.type name)) ++
    (args.indices.getD []).map fun index =>
      if d.parses (rawIndexQuery d.type tableName index) then .ok (storedIndexName d (fieldsIndexName index tableName))
      else .error ⟨"syntax error"⟩

/-- No two indices of a database have one name. -/
def addIndices (taken : List String) (table : Table) : List (Except JsError String) → Except JsError Table
  | [] => .ok table
  | statement :: rest => do
    let name ← statement
    if name ∈ taken ++ table.indices then throw ⟨"index " ++ name ++ " already exists"⟩
    addIndices taken { table with indices := table.indices ++ [name] } rest

def createModelTable (d : Dialect) (db : Catalogue) (args : IndexModelArgs) : Except JsError Catalogue := do
  let tableName := asTableName args.model
  let columns := modelColumns d.type ++ extraColumns d.type args
  if db.hasTable tableName then throw ⟨"table " ++ tableName ++ " already exists"⟩
  if ¬(columns.map fun column => columnKey d.type column.1).Nodup then throw ⟨"column specified more than once"⟩
  let table ← addIndices db.indexNames
    ⟨tableName, columns.map fun column => (storedName d.type column.1, column.2), []⟩ (indexStatements d args)
  return { db with tables := db.tables ++ [table] }

def listed (name : String) : Bool := "kjz".toList.isPrefixOf name.toList || name == "kh4q0ozorrgaq2mezktnrmdwleo1d"

def listMidTables (db : Catalogue) : List Table := db.tables.filter fun table => listed table.name

/-- Columns of relations that a table has are made nullable. -/
def alterTable (type : DatabaseType) (args : IndexModelArgs) (table : Table) : Table :=
  let columnNamesToChange := ((relationColumns args).map addColumnPrefix).filter fun name => table.columns.any fun column => column.1 == name
  { table with columns := table.columns.map fun column =>
      if column.1 ∈ columnNamesToChange then (column.1, Knex.string type 1024 true) else column }

/-- SQLite's tables are those listed before the first model. -/
def tableExists (type : DatabaseType) (existingTables : List String) (db : Catalogue) (tableName : String) : Bool :=
  match type with
  | .POSTGRES => db.hasTable tableName
  | .SQLITE => existingTables.contains tableName

def initMidTable (d : Dialect) (existingTables : List String) (db : Catalogue) (args : IndexModelArgs) : Except JsError Catalogue := do
  let tableName := asTableName args.model
  if d.type = .POSTGRES ∧ tableName.length > 63 then
    throw ⟨"Cannot index model " ++ tableName ++ ".  Table name is too long: " ++ tableName⟩
  if tableExists d.type existingTables db tableName then
    return { db with tables := db.tables.map fun table => if table.name = tableName then alterTable d.type args table else table }
  createModelTable d db args

def initMidTables (d : Dialect) (db : Catalogue) (models : List IndexModelArgs) : Except JsError Catalogue :=
  models.foldlM (initMidTable d ((listMidTables db).map Table.name)) db

def expectedIndices (d : Dialect) (tableName : String) (args : IndexModelArgs) : List Text :=
  (defaultIndices tableName).map Text.utf16 ++ (args.indices.getD []).map fun index =>
    match d.type with
    | .POSTGRES => d.toLowerCase (fieldsIndexName index tableName)
    | .SQLITE => fieldsIndexName index tableName

def validateIndices (tableName : String) (expect actual : List Text) : Except JsError Unit :=
  if (expect.filter fun indexName => !actual.contains indexName).isEmpty then .ok ()
  else .error ⟨"Schema verification failed for index: " ++ tableName ++ ". Please make sure latest migrations have been applied."⟩

def expectedTableStructure (type : DatabaseType) (args : IndexModelArgs) : JsObject :=
  (args.relations.getD []).foldl (fun columns relation =>
    JsObject.set columns (addColumnPrefix relation) (STRUCTURES.RELATION_COLUMN type)) (STRUCTURES.COMMON_TABLE type)

def _verifyMidTable (d : Dialect) (modelsToIndex : List IndexModelArgs) (table : Table) : Except JsError Unit :=
  match modelsToIndex.find? fun args => table.name == asTableName args.model with
  | none => .ok ()
  | some args =>
    if expectedTableStructure d.type args ≠ table.columns then
      .error ⟨"Schema verification failed for index: " ++ table.name ++ ". Please make sure latest migrations have been applied."⟩
    else validateIndices table.name (expectedIndices d table.name args) (table.indices.map Text.utf16)

def verifyTables (d : Dialect) (db : Catalogue) (modelsToIndex : List IndexModelArgs) : Except JsError Unit := do
  db.verifyConfigTables
  (listMidTables db).forM (_verifyMidTable d modelsToIndex)

end Ceramic.Indexing
