import Ceramic.TablesManager
import Ceramic.IdText

/-! When the tables that are created pass the verification, at first and after a restart. -/
namespace Ceramic.Indexing

section Creation

variable {d : Dialect} {db : Catalogue} {args : IndexModelArgs}

theorem addIndices_eq_ok {taken : List String} {table written : Table} {statements : List (Except JsError String)} :
    addIndices taken table statements = .ok written ↔ ∃ names, statements = names.map .ok ∧ names.Nodup ∧
      (∀ name ∈ names, name ∉ taken ∧ name ∉ table.indices) ∧ written = { table with indices := table.indices ++ names } := by
  induction statements generalizing table with
  | nil =>
    constructor
    · intro added
      cases added
      exact ⟨[], rfl, List.nodup_nil, nofun, by simp⟩
    · rintro ⟨names, none, -, -, rfl⟩
      obtain rfl := List.map_eq_nil_iff.mp none.symm
      simp [addIndices]
  | cons statement statements ih =>
    cases statement with
    | error e =>
      refine iff_of_false nofun ?_
      rintro ⟨_ | ⟨name, names⟩, same, -⟩ <;> cases same
    | ok name =>
      have step : addIndices taken table (.ok name :: statements) = .ok written ↔ (name ∉ taken ∧ name ∉ table.indices) ∧
          addIndices taken { table with indices := table.indices ++ [name] } statements = .ok written := by
        by_cases isTaken : name ∈ taken ++ table.indices
        · refine iff_of_false (fun added => ?_) fun both => ?_
          · simp [addIndices, isTaken, bind, Except.bind, throw, throwThe, MonadExceptOf.throw] at added
          · exact (List.mem_append.mp isTaken).elim both.1.1 both.1.2
        · have new := isTaken
          rw [List.mem_append, not_or] at new
          simp [addIndices, new, bind, Except.bind]
      rw [step, ih]
      constructor
      · rintro ⟨new, names, rfl, distinct, apart, rfl⟩
        refine ⟨name :: names, rfl, ?_, ?_, by simp⟩
        · refine List.nodup_cons.mpr ⟨fun again => ?_, distinct⟩
          exact (apart name again).2 (List.mem_append_right _ List.mem_cons_self)
        · refine List.forall_mem_cons.mpr ⟨new, fun other member => ⟨(apart other member).1, fun old => ?_⟩⟩
          exact (apart other member).2 (List.mem_append_left _ old)
      · rintro ⟨_ | ⟨first, names⟩, same, distinct, apart, rfl⟩
        · cases same
        · obtain ⟨isFirst, rfl⟩ := List.cons.inj same
          obtain rfl := Except.ok.inj isFirst
          obtain ⟨here, behind⟩ := List.forall_mem_cons.mp apart
          obtain ⟨other, rest⟩ := List.nodup_cons.mp distinct
          refine ⟨here, names, rfl, rest, fun next member => ⟨(behind next member).1, fun old => ?_⟩, by simp⟩
          obtain inOld | isName := List.mem_append.mp old
          · exact (behind next member).2 inOld
          · exact other (List.mem_singleton.mp isName ▸ member)

/-- The names of the indices of a model's table. -/
def createdNames (d : Dialect) (args : IndexModelArgs) : List String :=
  let tableName := asTableName args.model
  (columnIndices d.type tableName args ++ defaultIndices tableName).map (storedName d.type) ++
    (args.indices.getD []).map fun index => storedIndexName d (fieldsIndexName index tableName)

def Parses (d : Dialect) (args : IndexModelArgs) : Prop :=
  ∀ index ∈ args.indices.getD [], d.parses (rawIndexQuery d.type (asTableName args.model) index) = true

theorem indexStatements_eq {names : List String} :
    indexStatements d args = names.map .ok ↔ Parses d args ∧ names = createdNames d args := by
  have ok_of_parses (parses : Parses d args) : indexStatements d args = (createdNames d args).map .ok := by
    simp only [indexStatements, createdNames, List.map_append, List.map_map]
    congr 1
    exact List.map_congr_left fun index member => if_pos (parses index member)
  constructor
  · intro same
    have parses : Parses d args := by
      intro index member
      by_contra fails
      have failed : .error ⟨"syntax error"⟩ ∈ indexStatements d args :=
        List.mem_append_right _ (List.mem_map.mpr ⟨index, member, if_neg fails⟩)
      rw [same] at failed
      obtain ⟨_, -, isError⟩ := List.mem_map.mp failed
      cases isError
    refine ⟨parses, ?_⟩
    have inj : Function.Injective (Except.ok : String → Except JsError String) := fun _ _ => Except.ok.inj
    exact inj.list_map (same.symm.trans (ok_of_parses parses))
  · rintro ⟨parses, rfl⟩
    exact ok_of_parses parses

def madeColumns (type : DatabaseType) (args : IndexModelArgs) : JsObject :=
  (modelColumns type ++ extraColumns type args).map fun column => (storedName type column.1, column.2)

def made (d : Dialect) (args : IndexModelArgs) : Table := ⟨asTableName args.model, madeColumns d.type args, createdNames d args⟩

def ColumnsApart (type : DatabaseType) (args : IndexModelArgs) : Prop :=
  ((modelColumns type ++ extraColumns type args).map fun column => columnKey type column.1).Nodup

theorem createModelTable_eq_ok {after : Catalogue} (absent : db.hasTable (asTableName args.model) = false) :
    createModelTable d db args = .ok after ↔ ColumnsApart d.type args ∧ Parses d args ∧ (createdNames d args).Nodup ∧
      (∀ name ∈ createdNames d args, name ∉ db.indexNames) ∧ after = { db with tables := db.tables ++ [made d args] } := by
  unfold createModelTable
  simp only [absent, Bool.false_eq_true, if_false]
  by_cases apart : ColumnsApart d.type args
  · have notRepeated : ¬¬((modelColumns d.type ++ extraColumns d.type args).map fun column => columnKey d.type column.1).Nodup :=
      not_not.mpr apart
    rw [if_neg notRepeated, and_iff_right apart]
    rw [bind_eq_ok]
    constructor
    · rintro ⟨table, added, returned⟩
      obtain ⟨names, same, distinct, free, rfl⟩ := addIndices_eq_ok.mp added
      obtain ⟨parses, rfl⟩ := indexStatements_eq.mp same
      exact ⟨parses, distinct, fun name member => (free name member).1, (Except.ok.inj returned).symm⟩
    · rintro ⟨parses, distinct, free, rfl⟩
      exact ⟨made d args, addIndices_eq_ok.mpr ⟨_, indexStatements_eq.mpr ⟨parses, rfl⟩, distinct,
        fun name member => ⟨free name member, List.not_mem_nil⟩, rfl⟩, rfl⟩
  · have repeated : ¬((modelColumns d.type ++ extraColumns d.type args).map fun column => columnKey d.type column.1).Nodup := apart
    rw [if_pos repeated]
    exact iff_of_false nofun fun created => apart created.1

theorem hasTable_eq_true {name : String} : db.hasTable name = true ↔ ∃ table ∈ db.tables, table.name = name := by
  simp [Catalogue.hasTable]

/-- What a model's table needs for itself to be created. -/
structure Creatable (d : Dialect) (args : IndexModelArgs) : Prop where
  short : d.type = .POSTGRES → (asTableName args.model).length ≤ 63
  columns : ColumnsApart d.type args
  parses : Parses d args

theorem initMidTable_new {existing : List String} {after : Catalogue} (absent : db.hasTable (asTableName args.model) = false)
    (unlisted : asTableName args.model ∉ existing) :
    initMidTable d existing db args = .ok after ↔ Creatable d args ∧ (createdNames d args).Nodup ∧
      (∀ name ∈ createdNames d args, name ∉ db.indexNames) ∧ after = { db with tables := db.tables ++ [made d args] } := by
  have notPresent : tableExists d.type existing db (asTableName args.model) = false := by
    cases d.type with
    | POSTGRES => exact absent
    | SQLITE => simpa [tableExists] using unlisted
  unfold initMidTable
  by_cases long : d.type = .POSTGRES ∧ (asTableName args.model).length > 63
  · rw [if_pos long]
    exact iff_of_false nofun fun created => absurd (created.1.short long.1) (Nat.not_le.mpr long.2)
  · rw [if_neg long]
    have short : d.type = .POSTGRES → (asTableName args.model).length ≤ 63 := fun isPostgres =>
      Nat.not_lt.mp fun isLong => long ⟨isPostgres, isLong⟩
    rw [notPresent, if_neg Bool.false_ne_true, createModelTable_eq_ok absent]
    constructor
    · rintro ⟨apart, parses, rest⟩
      exact ⟨⟨short, apart, parses⟩, rest⟩
    · rintro ⟨creatable, rest⟩
      exact ⟨creatable.columns, creatable.parses, rest⟩

theorem indexNames_append {tables : List Table} : ({ db with tables := db.tables ++ tables } : Catalogue).indexNames =
    db.indexNames ++ tables.flatMap Table.indices := by
  simp [Catalogue.indexNames]

/-- The tables of a catalogue that has none of the models' are made one after the other. -/
theorem foldlM_initMidTable_new {existing : List String} {models : List IndexModelArgs} {after : Catalogue}
    (distinct : (models.map IndexModelArgs.model).Nodup) (absent : ∀ args ∈ models, db.hasTable (asTableName args.model) = false)
    (unlisted : ∀ args ∈ models, asTableName args.model ∉ existing) :
    models.foldlM (initMidTable d existing) db = .ok after ↔ (∀ args ∈ models, Creatable d args) ∧
      (models.flatMap (createdNames d)).Nodup ∧ (∀ name ∈ models.flatMap (createdNames d), name ∉ db.indexNames) ∧
        after = { db with tables := db.tables ++ models.map (made d) } := by
  induction models generalizing db with
  | nil =>
    simp only [List.foldlM_nil, List.flatMap_nil, List.map_nil, List.append_nil]
    exact ⟨fun same => ⟨nofun, List.nodup_nil, nofun, (Except.ok.inj same).symm⟩, fun rest => by rw [rest.2.2.2]; rfl⟩
  | cons args models ih =>
    obtain ⟨other, distinctRest⟩ := List.nodup_cons.mp distinct
    obtain ⟨absentHere, absentRest⟩ := List.forall_mem_cons.mp absent
    obtain ⟨unlistedHere, unlistedRest⟩ := List.forall_mem_cons.mp unlisted
    have absentNext : ∀ next ∈ models,
        ({ db with tables := db.tables ++ [made d args] } : Catalogue).hasTable (asTableName next.model) = false := by
      intro next member
      rw [Bool.eq_false_iff]
      intro present
      obtain ⟨table, isTable, isName⟩ := hasTable_eq_true.mp present
      obtain old | new := List.mem_append.mp isTable
      · exact Bool.eq_false_iff.mp (absentRest next member) (hasTable_eq_true.mpr ⟨table, old, isName⟩)
      · obtain rfl := List.mem_singleton.mp new
        exact other (List.mem_map.mpr ⟨next, member, (StreamID.toString_injective isName).symm⟩)
    have rest := @ih { db with tables := db.tables ++ [made d args] } distinctRest absentNext unlistedRest
    rw [indexNames_append] at rest
    rw [List.foldlM_cons, bind_eq_ok, List.flatMap_cons, List.nodup_append']
    constructor
    · rintro ⟨middle, first, behind⟩
      obtain ⟨creatable, distinctNames, free, rfl⟩ := (initMidTable_new absentHere unlistedHere).mp first
      obtain ⟨creatableRest, distinctBehind, freeBehind, rfl⟩ := rest.mp behind
      refine ⟨List.forall_mem_cons.mpr ⟨creatable, creatableRest⟩, ⟨distinctNames, distinctBehind, ?_⟩, ?_, by simp⟩
      · intro name here there
        exact freeBehind name there (List.mem_append_right _ (by simpa [made] using here))
      · intro name member
        obtain here | there := List.mem_append.mp member
        · exact free name here
        · exact fun old => freeBehind name there (List.mem_append_left _ old)
    · rintro ⟨creatable, ⟨distinctNames, distinctBehind, apart⟩, free, rfl⟩
      obtain ⟨creatableHere, creatableRest⟩ := List.forall_mem_cons.mp creatable
      refine ⟨_, (initMidTable_new absentHere unlistedHere).mpr
        ⟨creatableHere, distinctNames, fun name member => free name (List.mem_append_left _ member), rfl⟩, rest.mpr
        ⟨creatableRest, distinctBehind, fun name there => ?_, by simp⟩⟩
      rw [List.mem_append, not_or]
      refine ⟨free name (List.mem_append_right _ there), fun here => apart (?_ : name ∈ createdNames d args) there⟩
      simpa [made] using here

end Creation

section Restart

variable {type : DatabaseType}

theorem isPrefixOf_addColumnPrefix (name : String) : "custom_".toList.isPrefixOf (addColumnPrefix name).toList = true := by
  unfold addColumnPrefix
  split
  next has => exact has
  next => simp [CUSTOM_COLUMN_PREFIX]

theorem addColumnPrefix_twice (name : String) : addColumnPrefix (addColumnPrefix name) = addColumnPrefix name :=
  if_pos (isPrefixOf_addColumnPrefix name)

theorem common_not_custom : ∀ column ∈ modelColumns type, ∀ name, column.1 ≠ addColumnPrefix name := by
  have plain : ∀ column ∈ modelColumns type, "custom_".toList.isPrefixOf column.1.toList = false := by
    cases type <;> decide
  intro column member name same
  have custom := isPrefixOf_addColumnPrefix name
  rw [← same, plain column member] at custom
  cases custom

theorem common_stored : (modelColumns type).map (fun column => (storedName type column.1, column.2)) = modelColumns type := by
  cases type <;> rfl

/-- The columns that are altered are what they were. -/
theorem alterTable_made {d : Dialect} {args : IndexModelArgs} : alterTable d.type args (made d args) = made d args := by
  have unchanged : ∀ column ∈ madeColumns d.type args,
      (if column.1 ∈ ((relationColumns args).map addColumnPrefix).filter fun name => (madeColumns d.type args).any fun column => column.1 == name
        then (column.1, Knex.string d.type 1024 true) else column) = column := by
    intro column member
    rw [madeColumns, List.map_append, common_stored] at member
    obtain common | extra := List.mem_append.mp member
    · refine if_neg fun changed => ?_
      obtain ⟨name, -, isName⟩ := List.mem_map.mp (List.mem_of_mem_filter changed)
      exact common_not_custom column common name isName.symm
    · obtain ⟨created, isCreated, rfl⟩ := List.mem_map.mp extra
      obtain ⟨name, -, rfl⟩ := List.mem_map.mp isCreated
      exact ite_self _
  unfold alterTable
  exact congrArg (Table.mk _ · _) ((List.map_congr_left unchanged).trans (List.map_id'' (fun _ => rfl) _))

section

variable {d : Dialect} {db after : Catalogue} {models : List IndexModelArgs} {existing : List String}

/-- The catalogue with the tables of the models. -/
def withTables (d : Dialect) (db : Catalogue) (models : List IndexModelArgs) : Catalogue :=
  { db with tables := db.tables ++ models.map (made d) }

theorem hasTable_withTables {args : IndexModelArgs} (member : args ∈ models) :
    (withTables d db models).hasTable (asTableName args.model) = true :=
  hasTable_eq_true.mpr ⟨made d args, List.mem_append_right _ (List.mem_map_of_mem member), rfl⟩

theorem altered_withTables (distinct : (models.map IndexModelArgs.model).Nodup)
    (absent : ∀ args ∈ models, db.hasTable (asTableName args.model) = false) {args : IndexModelArgs} (member : args ∈ models) :
    ((withTables d db models).tables.map fun table => if table.name = asTableName args.model then alterTable d.type args table else table) =
      (withTables d db models).tables := by
  have unchanged : ∀ table ∈ (withTables d db models).tables,
      (if table.name = asTableName args.model then alterTable d.type args table else table) = table := by
    intro table isTable
    split
    next isName =>
      obtain old | new := List.mem_append.mp isTable
      · cases (absent args member).symm.trans (hasTable_eq_true.mpr ⟨table, old, isName⟩)
      · obtain ⟨other, isOther, rfl⟩ := List.mem_map.mp new
        obtain rfl : other = args := List.inj_on_of_nodup_map distinct isOther member (StreamID.toString_injective isName)
        exact alterTable_made
    next => rfl
  exact (List.map_congr_left unchanged).trans (List.map_id'' (fun _ => rfl) _)

theorem initMidTable_again (distinct : (models.map IndexModelArgs.model).Nodup)
    (absent : ∀ args ∈ models, db.hasTable (asTableName args.model) = false) {args : IndexModelArgs} (member : args ∈ models)
    (short : d.type = .POSTGRES → (asTableName args.model).length ≤ 63) :
    initMidTable d existing (withTables d db models) args = .ok after ↔
      (d.type = .SQLITE → asTableName args.model ∈ existing) ∧ after = withTables d db models := by
  unfold initMidTable
  rw [if_neg fun long => absurd (short long.1) (Nat.not_le.mpr long.2), altered_withTables distinct absent member]
  by_cases present : tableExists d.type existing (withTables d db models) (asTableName args.model) = true
  · rw [if_pos present]
    have isListed : d.type = .SQLITE → asTableName args.model ∈ existing := by
      intro isSqlite
      rw [isSqlite] at present
      simpa [tableExists] using present
    rw [and_iff_right isListed]
    exact ⟨fun returned => (Except.ok.inj returned).symm, fun same => by rw [same]; rfl⟩
  · rw [if_neg present]
    have unlisted : ¬(d.type = .SQLITE → asTableName args.model ∈ existing) := by
      intro isListed
      cases isType : d.type with
      | POSTGRES => exact present (by rw [isType]; exact hasTable_withTables member)
      | SQLITE => exact present (by rw [isType]; simpa [tableExists] using isListed isType)
    refine iff_of_false (fun created => ?_) fun both => unlisted both.1
    simp [createModelTable, hasTable_withTables member, throw, throwThe, MonadExceptOf.throw, bind, Except.bind] at created

/-- With its tables there, a run over the models changes nothing. -/
theorem foldlM_initMidTable_again (distinct : (models.map IndexModelArgs.model).Nodup)
    (absent : ∀ args ∈ models, db.hasTable (asTableName args.model) = false)
    (short : ∀ args ∈ models, d.type = .POSTGRES → (asTableName args.model).length ≤ 63) {rest : List IndexModelArgs}
    (within : ∀ args ∈ rest, args ∈ models) :
    rest.foldlM (initMidTable d existing) (withTables d db models) = .ok after ↔
      (d.type = .SQLITE → ∀ args ∈ rest, asTableName args.model ∈ existing) ∧ after = withTables d db models := by
  induction rest with
  | nil =>
    simp only [List.foldlM_nil]
    exact ⟨fun same => ⟨fun _ => nofun, (Except.ok.inj same).symm⟩, fun both => by rw [both.2]; rfl⟩
  | cons args rest ih =>
    obtain ⟨isHere, behind⟩ := List.forall_mem_cons.mp within
    have step {middle : Catalogue} := @initMidTable_again d db middle models existing distinct absent args isHere (short args isHere)
    rw [List.foldlM_cons, bind_eq_ok]
    constructor
    · rintro ⟨middle, first, others⟩
      obtain ⟨isListed, rfl⟩ := step.mp first
      obtain ⟨areListed, rfl⟩ := (ih behind).mp others
      exact ⟨fun isSqlite => List.forall_mem_cons.mpr ⟨isListed isSqlite, areListed isSqlite⟩, rfl⟩
    · rintro ⟨areListed, rfl⟩
      exact ⟨_, step.mpr ⟨fun isSqlite => (List.forall_mem_cons.mp (areListed isSqlite)).1, rfl⟩,
        (ih behind).mpr ⟨fun isSqlite => (List.forall_mem_cons.mp (areListed isSqlite)).2, rfl⟩⟩

theorem initMidTables_again (distinct : (models.map IndexModelArgs.model).Nodup)
    (absent : ∀ args ∈ models, db.hasTable (asTableName args.model) = false)
    (short : ∀ args ∈ models, d.type = .POSTGRES → (asTableName args.model).length ≤ 63) :
    initMidTables d (withTables d db models) models = .ok after ↔
      (d.type = .SQLITE → ∀ args ∈ models, listed (asTableName args.model) = true) ∧ after = withTables d db models := by
  have isListed {args : IndexModelArgs} (member : args ∈ models) :
      asTableName args.model ∈ (listMidTables (withTables d db models)).map Table.name ↔ listed (asTableName args.model) = true := by
    constructor
    · intro isName
      obtain ⟨table, isTable, same⟩ := List.mem_map.mp isName
      exact same ▸ (List.mem_filter.mp isTable).2
    · intro isListed
      exact List.mem_map.mpr ⟨made d args, List.mem_filter.mpr
        ⟨List.mem_append_right _ (List.mem_map_of_mem member), isListed⟩, rfl⟩
  unfold initMidTables
  rw [foldlM_initMidTable_again distinct absent short fun _ member => member]
  refine and_congr_left fun _ => imp_congr_right fun _ => forall_congr' fun args => forall_congr' fun member => isListed member

theorem initMidTables_new (distinct : (models.map IndexModelArgs.model).Nodup)
    (absent : ∀ args ∈ models, db.hasTable (asTableName args.model) = false) :
    initMidTables d db models = .ok after ↔ (∀ args ∈ models, Creatable d args) ∧ (models.flatMap (createdNames d)).Nodup ∧
      (∀ name ∈ models.flatMap (createdNames d), name ∉ db.indexNames) ∧ after = withTables d db models := by
  refine foldlM_initMidTable_new distinct absent fun args member isName => ?_
  obtain ⟨table, isTable, same⟩ := List.mem_map.mp isName
  exact Bool.eq_false_iff.mp (absent args member) (hasTable_eq_true.mpr ⟨table, List.mem_of_mem_filter isTable, same⟩)

end

end Restart

section Verification

variable {d : Dialect} {db : Catalogue} {models : List IndexModelArgs} {args : IndexModelArgs}

/-- What the verification of a table that has been made comes to. -/
structure Verified (d : Dialect) (args : IndexModelArgs) : Prop where
  columns : expectedTableStructure d.type args = madeColumns d.type args
  indices : ∀ name ∈ expectedIndices d (asTableName args.model) args, name ∈ (createdNames d args).map Text.utf16

theorem validateIndices_eq_ok {tableName : String} {expect actual : List Text} :
    validateIndices tableName expect actual = .ok () ↔ ∀ name ∈ expect, name ∈ actual := by
  unfold validateIndices
  split
  next none => simpa using none
  next missing => simpa using missing

theorem verifyMidTable_made (distinct : (models.map IndexModelArgs.model).Nodup) (member : args ∈ models) :
    _verifyMidTable d models (made d args) = .ok () ↔ Verified d args := by
  have found : (models.find? fun other => (made d args).name == asTableName other.model) = some args := by
    obtain ⟨other, isFound⟩ := Option.isSome_iff_exists.mp (List.find?_isSome.mpr ⟨args, member, beq_self_eq_true _⟩ :
      (models.find? fun other => (made d args).name == asTableName other.model).isSome)
    have sameName : (made d args).name = asTableName other.model := by simpa using List.find?_some isFound
    rw [isFound, List.inj_on_of_nodup_map distinct (List.mem_of_find?_eq_some isFound) member
      (StreamID.toString_injective sameName).symm]
  unfold _verifyMidTable
  rw [found]
  by_cases same : expectedTableStructure d.type args = madeColumns d.type args
  · have notDifferent : ¬expectedTableStructure d.type args ≠ (made d args).columns := not_not.mpr same
    simp only [if_neg notDifferent]
    rw [validateIndices_eq_ok]
    exact ⟨fun indices => ⟨same, indices⟩, fun verified => verified.indices⟩
  · have different : expectedTableStructure d.type args ≠ (made d args).columns := same
    simp only [if_pos different]
    exact iff_of_false nofun fun verified => same verified.columns

theorem verifyTables_eq_ok (distinct : (models.map IndexModelArgs.model).Nodup)
    (absent : ∀ args ∈ models, db.hasTable (asTableName args.model) = false) :
    verifyTables d (withTables d db models) models = .ok () ↔ db.verifyConfigTables = .ok () ∧
      ∀ args ∈ models, listed (asTableName args.model) = true → Verified d args := by
  have others : ∀ table ∈ db.tables, _verifyMidTable d models table = .ok () := by
    intro table isTable
    have unknown : (models.find? fun args => table.name == asTableName args.model) = none := by
      refine List.find?_eq_none.mpr fun args member same => ?_
      exact Bool.eq_false_iff.mp (absent args member) (hasTable_eq_true.mpr ⟨table, isTable, beq_iff_eq.mp same⟩)
    unfold _verifyMidTable
    rw [unknown]
  unfold verifyTables
  rw [then_eq_ok, forM_eq_ok]
  refine and_congr Iff.rfl ⟨fun every args member isListed => ?_, fun every table isTable => ?_⟩
  · exact (verifyMidTable_made distinct member).mp (every (made d args)
      (List.mem_filter.mpr ⟨List.mem_append_right _ (List.mem_map_of_mem member), isListed⟩))
  · obtain ⟨inTables, isListed⟩ := List.mem_filter.mp isTable
    obtain old | new := List.mem_append.mp inTables
    · exact others table old
    · obtain ⟨args, member, rfl⟩ := List.mem_map.mp new
      exact (verifyMidTable_made distinct member).mpr (every args member isListed)

end Verification

section Names

namespace Text

theorem decode_ofChar (c : Char) (rest : Text) : decode (ofChar c ++ rest) = c :: decode rest := by
  have valid : c.val.toNat < 0xD800 ∨ 0xDFFF < c.val.toNat ∧ c.val.toNat < 0x110000 := c.valid
  have unit {n : Nat} (small : n < 0x10000) : (UInt16.ofNat n).toNat = n := by
    rw [UInt16.toNat_ofNat']
    exact Nat.mod_eq_of_lt small
  have char : Char.ofNat c.val.toNat = c := Char.ofNat_toNat c
  unfold ofChar
  split
  next small =>
    have notHigh : isHigh (.ofNat c.val.toNat) = false := by
      rw [isHigh, unit small]
      exact decide_eq_false (by omega)
    have notLow : isLow (.ofNat c.val.toNat) = false := by
      rw [isLow, unit small]
      exact decide_eq_false (by omega)
    have isChar : single (.ofNat c.val.toNat) = c := by
      rw [single, notHigh, notLow, unit small]
      exact char
    cases rest with
    | nil => exact congrArg (fun c => [c]) isChar
    | cons low rest =>
      rw [List.singleton_append, decode, notHigh, isChar]
      rfl
  next large =>
    have high : (UInt16.ofNat (0xD800 + (c.val.toNat - 0x10000) / 0x400)).toNat = 0xD800 + (c.val.toNat - 0x10000) / 0x400 :=
      unit (by omega)
    have low : (UInt16.ofNat (0xDC00 + (c.val.toNat - 0x10000) % 0x400)).toNat = 0xDC00 + (c.val.toNat - 0x10000) % 0x400 :=
      unit (by omega)
    have isPair : (isHigh (.ofNat (0xD800 + (c.val.toNat - 0x10000) / 0x400)) &&
        isLow (.ofNat (0xDC00 + (c.val.toNat - 0x10000) % 0x400))) = true := by
      rw [isHigh, isLow, high, low, Bool.and_eq_true]
      exact ⟨decide_eq_true (by omega), decide_eq_true (by omega)⟩
    have whole : 0x10000 + (0xD800 + (c.val.toNat - 0x10000) / 0x400 - 0xD800) * 0x400 +
        (0xDC00 + (c.val.toNat - 0x10000) % 0x400 - 0xDC00) = c.val.toNat := by
      omega
    rw [List.cons_append, List.singleton_append, decode, if_pos isPair, high, low, whole, char]

theorem sent_utf16 (s : String) : (utf16 s).sent = s := by
  have decoded (cs : List Char) : decode (cs.flatMap ofChar) = cs := by
    induction cs with
    | nil => rfl
    | cons c cs ih => rw [List.flatMap_cons, decode_ofChar, ih]
  rw [sent, utf16, decoded, String.ofList_toList]

theorem utf16_injective : Function.Injective utf16 := Function.LeftInverse.injective sent_utf16

end Text

theorem clipped_eq_iff {limit : Nat} {cs : List Char} : clipped limit cs = cs ↔ (cs.map Char.utf8Size).sum ≤ limit := by
  induction cs generalizing limit with
  | nil => simp [clipped]
  | cons c cs ih =>
    rw [clipped, List.map_cons, List.sum_cons]
    split
    next fits =>
      rw [List.cons.injEq, and_iff_right rfl, ih]
      omega
    next long =>
      refine iff_of_false nofun ?_
      omega

theorem clip_eq_iff {name : String} : clip name = name ↔ byteLength name ≤ 63 := by
  rw [byteLength, ← clipped_eq_iff, clip]
  constructor
  · intro same
    have letters := congrArg String.toList same
    rwa [String.toList_ofList] at letters
  · intro same
    rw [same, String.ofList_toList]

theorem utf8Size_base36 {c : Char} (member : c ∈ base36Alphabet) : c.utf8Size = 1 := by
  have ascii : base36Alphabet.all (fun c => decide (c.val.toNat ≤ 127)) = true := by decide +kernel
  have below := of_decide_eq_true (List.all_eq_true.mp ascii c member)
  exact Char.utf8Size_eq_one_iff.mpr (UInt32.le_iff_toNat_le.mpr below)

theorem utf8Size_of_mem {model : StreamID} {c : Char} (member : c ∈ (asTableName model).toList) : c.utf8Size = 1 := by
  rw [asTableName, StreamID.toString, String.toList_ofList, base36Encode] at member
  obtain rfl | inText := List.mem_cons.mp member
  · rfl
  · exact utf8Size_base36 (Cid.mem_baseX (by decide) inText)

theorem modelColumns_eq (type : DatabaseType) : STRUCTURES.COMMON_TABLE type = modelColumns type := by
  cases type <;> rfl

theorem relationColumn_eq (type : DatabaseType) : STRUCTURES.RELATION_COLUMN type = Knex.string type 1024 true := by
  cases type <;> rfl

theorem extraColumns_eq (type : DatabaseType) (args : IndexModelArgs) :
    extraColumns type args = (args.relations.getD []).map fun relation => (addColumnPrefix relation, STRUCTURES.RELATION_COLUMN type) := by
  unfold extraColumns relationColumns
  rw [List.map_map, relationColumn_eq]
  exact List.map_congr_left fun relation _ => congrArg (·, _) (addColumnPrefix_twice relation)

/-- New columns come last, in the order of the relations. -/
theorem foldl_set {relations : List String} {columns : JsObject} {column : JsValue} (distinct : (relations.map addColumnPrefix).Nodup)
    (new : ∀ relation ∈ relations, ∀ field ∈ columns, field.1 ≠ addColumnPrefix relation) :
    relations.foldl (fun columns relation => JsObject.set columns (addColumnPrefix relation) column) columns =
      columns ++ relations.map fun relation => (addColumnPrefix relation, column) := by
  induction relations generalizing columns with
  | nil => simp
  | cons relation relations ih =>
    obtain ⟨here, behind⟩ := List.forall_mem_cons.mp new
    obtain ⟨other, distinctRest⟩ := List.nodup_cons.mp distinct
    rw [List.foldl_cons, JsObject.set_new here, ih distinctRest, List.append_assoc, List.map_cons]
    · rfl
    · intro next member field isField
      obtain old | isNew := List.mem_append.mp isField
      · exact behind next member field old
      · rw [List.mem_singleton.mp isNew]
        exact fun same => other (List.mem_map.mpr ⟨next, member, same.symm⟩)

theorem storedName_eq_iff {type : DatabaseType} {name : String} :
    storedName type name = name ↔ (type = .POSTGRES → byteLength name ≤ 63) := by
  cases type with
  | POSTGRES => exact clip_eq_iff.trans ⟨fun short _ => short, fun short => short rfl⟩
  | SQLITE => exact ⟨fun _ => nofun, fun _ => rfl⟩

end Names

section Recognition

variable {d : Dialect} {args : IndexModelArgs}

theorem expectedTableStructure_eq (apart : ColumnsApart d.type args) :
    expectedTableStructure d.type args = modelColumns d.type ++ extraColumns d.type args := by
  have distinct : ((args.relations.getD []).map addColumnPrefix).Nodup := by
    rw [ColumnsApart, List.map_append, List.nodup_append'] at apart
    have names := apart.2.1
    rw [extraColumns_eq, List.map_map] at names
    have keys : ((args.relations.getD []).map addColumnPrefix).map (columnKey d.type) =
        (args.relations.getD []).map ((fun column : String × JsValue => columnKey d.type column.1) ∘
          fun relation => (addColumnPrefix relation, STRUCTURES.RELATION_COLUMN d.type)) := by
      rw [List.map_map]
      rfl
    exact List.Nodup.of_map _ (keys ▸ names)
  rw [expectedTableStructure, modelColumns_eq, extraColumns_eq]
  exact foldl_set distinct fun relation _ field member => common_not_custom field member relation

/-- The columns are as expected if the names of all relations are kept. -/
theorem columns_iff (apart : ColumnsApart d.type args) : expectedTableStructure d.type args = madeColumns d.type args ↔
    ∀ relation ∈ args.relations.getD [], d.type = .POSTGRES → byteLength (addColumnPrefix relation) ≤ 63 := by
  rw [expectedTableStructure_eq apart, madeColumns, List.map_append, common_stored, List.append_cancel_left_eq, extraColumns_eq,
    List.map_map]
  constructor
  · intro same relation member
    have kept := List.map_inj_left.mp same relation member
    exact storedName_eq_iff.mp (congrArg Prod.fst kept).symm
  · intro short
    exact List.map_inj_left.mpr fun relation member =>
      congrArg (·, STRUCTURES.RELATION_COLUMN d.type) (storedName_eq_iff.mpr (short relation member)).symm

theorem byteLength_append (front back : String) : byteLength (front ++ back) = byteLength front + byteLength back := by
  simp [byteLength]

theorem byteLength_indexName (model : StreamID) : byteLength (indexNameFromTableName (asTableName model)) ≤ 14 := by
  have ten : byteLength (.ofList ((asTableName model).toList.drop ((asTableName model).toList.length - 10))) ≤ 10 := by
    rw [byteLength, String.toList_ofList, List.map_congr_left fun c member => utf8Size_of_mem (List.mem_of_mem_drop member)]
    simp only [List.map_const', List.sum_replicate_nat, List.length_drop, Nat.mul_one]
    omega
  rw [indexNameFromTableName, byteLength_append]
  exact Nat.add_le_add (show byteLength "idx_" ≤ 4 by decide) ten

theorem storedName_default {model : StreamID} {name : String} (isDefault : name ∈ defaultIndices (asTableName model)) :
    storedName d.type name = name := by
  refine storedName_eq_iff.mpr fun _ => ?_
  obtain ⟨field, isField, rfl⟩ := List.mem_map.mp isDefault
  have short : ∀ field ∈ ["stream_id", "last_anchored_at", "first_anchored_at", "created_at", "updated_at",
      "last_anchored_at_created_at"], byteLength field ≤ 27 := by decide
  have front := byteLength_indexName model
  have back := short field isField
  have line : byteLength "_" = 1 := by decide
  rw [byteLength_append, byteLength_append, line]
  omega

variable (d) in
/-- The laws of lower case: Postgres folds as the source does, and a text with half of a character in it keeps
it. -/
structure Dialect.Lawful : Prop where
  folds : ∀ name, Text.utf16 (d.fold name) = d.toLowerCase (Text.utf16 name)
  keeps : ∀ text name, d.toLowerCase text = Text.utf16 name → ∃ whole, text = Text.utf16 whole

variable (d args) in
/-- The names of a table are stored as they are expected. -/
structure Recognised : Prop where
  columns : ∀ relation ∈ args.relations.getD [], d.type = .POSTGRES → byteLength (addColumnPrefix relation) ≤ 63
  indices : ∀ index ∈ args.indices.getD [], ∃ name, fieldsIndexName index (asTableName args.model) = Text.utf16 name ∧
    (d.type = .POSTGRES → byteLength (d.fold name) ≤ 63)

/-- No name in Postgres is longer than it stores. -/
theorem clip_of_created (isPostgres : d.type = .POSTGRES) {name : String} (isName : name ∈ createdNames d args) :
    clip name = name := by
  have once (limit : Nat) (cs : List Char) : clipped limit (clipped limit cs) = clipped limit cs := by
    induction cs generalizing limit with
    | nil => rfl
    | cons c cs ih =>
      rw [clipped]
      split
      next fits => rw [clipped, if_pos fits, ih]
      next => rfl
  have clipped_once (name : String) : clip (clip name) = clip name := by
    rw [clip, clip, String.toList_ofList, once]
  obtain quoted | raw := List.mem_append.mp isName
  · obtain ⟨own, -, rfl⟩ := List.mem_map.mp quoted
    rw [isPostgres]
    exact clipped_once own
  · obtain ⟨index, -, rfl⟩ := List.mem_map.mp raw
    rw [storedIndexName, isPostgres]
    exact clipped_once _

theorem indices_iff (lawful : d.Lawful) :
    (∀ name ∈ expectedIndices d (asTableName args.model) args, name ∈ (createdNames d args).map Text.utf16) ↔
      ∀ index ∈ args.indices.getD [], ∃ name, fieldsIndexName index (asTableName args.model) = Text.utf16 name ∧
        (d.type = .POSTGRES → byteLength (d.fold name) ≤ 63) := by
  constructor
  · intro every index member
    have stored := every _ (List.mem_append_right _ (List.mem_map_of_mem member))
    obtain ⟨name, isName, same⟩ := List.mem_map.mp stored
    cases isType : d.type with
    | POSTGRES =>
      rw [isType] at same
      obtain ⟨whole, isWhole⟩ := lawful.keeps _ _ same.symm
      have folded : d.fold whole = name := Text.utf16_injective ((lawful.folds whole).trans ((congrArg _ isWhole.symm).trans same.symm))
      exact ⟨whole, isWhole, fun _ => folded ▸ clip_eq_iff.mp (clip_of_created isType isName)⟩
    | SQLITE =>
      rw [isType] at same
      exact ⟨name, same.symm, nofun⟩
  · intro kept name isExpected
    obtain isDefault | isField := List.mem_append.mp isExpected
    · obtain ⟨own, isOwn, rfl⟩ := List.mem_map.mp isDefault
      refine List.mem_map.mpr ⟨own, List.mem_append_left _ (List.mem_map.mpr ⟨own, List.mem_append_right _ isOwn, ?_⟩), rfl⟩
      exact storedName_default isOwn
    · obtain ⟨index, member, rfl⟩ := List.mem_map.mp isField
      obtain ⟨whole, isWhole, short⟩ := kept index member
      refine List.mem_map.mpr ⟨_, List.mem_append_right _ (List.mem_map_of_mem member), ?_⟩
      rw [storedIndexName, isWhole, Text.sent_utf16]
      cases isType : d.type with
      | POSTGRES => exact (congrArg Text.utf16 (clip_eq_iff.mpr (short isType))).trans (lawful.folds whole)
      | SQLITE => rfl

theorem verified_iff (lawful : d.Lawful) (apart : ColumnsApart d.type args) : Verified d args ↔ Recognised d args :=
  ⟨fun verified => ⟨(columns_iff apart).mp verified.columns, (indices_iff lawful).mp verified.indices⟩,
    fun recognised => ⟨(columns_iff apart).mpr recognised.columns, (indices_iff lawful).mpr recognised.indices⟩⟩

end Recognition

/-- What the models ask of the database that their tables are made in. -/
structure Agree (d : Dialect) (db : Catalogue) (models : List IndexModelArgs) : Prop where
  config : db.verifyConfigTables = .ok ()
  creatable : ∀ args ∈ models, Creatable d args
  distinct : (models.flatMap (createdNames d)).Nodup
  free : ∀ name ∈ models.flatMap (createdNames d), name ∉ db.indexNames
  recognised : ∀ args ∈ models, listed (asTableName args.model) = true → Recognised d args
  listed : d.type = .SQLITE → ∀ args ∈ models, listed (asTableName args.model) = true

namespace TablesFixture

/-- A database that is only given names in lower case. -/
def dialect (type : DatabaseType) : Dialect := ⟨type, id, id, fun _ => true⟩

theorem dialect_lawful (type : DatabaseType) : (dialect type).Lawful := ⟨fun _ => rfl, fun _ name same => ⟨name, same⟩⟩

def empty : Catalogue := ⟨[], .ok ()⟩

def note : StreamID := ⟨2, ⟨[1, 0x85, 1, 18, 32] ++ List.replicate 32 7⟩⟩

def noteName : String := "kjzl6hvfrbw6c56sdr5w22m6u74c5zkm3jy51k2mxpt061iigotqq9m4y6frkef"

theorem asTableName_note : asTableName note = noteName := by
  decide +kernel

theorem createdNames_note {d : Dialect} {args : IndexModelArgs} (isNote : args.model = note) : createdNames d args =
    (columnIndices d.type noteName args ++ defaultIndices noteName).map (storedName d.type) ++
      (args.indices.getD []).map fun index => storedIndexName d (fieldsIndexName index noteName) := by
  rw [createdNames, isNote, asTableName_note]

/-- A model with a relation and an index over two fields. -/
def notes : List IndexModelArgs := [{ model := note, relations := some ["author"], indices := some [⟨[["name"], ["meta", "age"]]⟩] }]

theorem single_distinct (args : IndexModelArgs) : ([args].map IndexModelArgs.model).Nodup := List.nodup_singleton _

theorem notes_creatable : ∀ args ∈ notes, Creatable (dialect .POSTGRES) args := by
  intro args member
  obtain rfl := List.mem_singleton.mp member
  refine ⟨fun _ => ?_, ?_, fun _ _ => rfl⟩
  · rw [asTableName_note]
    decide
  · unfold ColumnsApart
    decide +kernel

theorem notes_recognised : ∀ args ∈ notes, Recognised (dialect .POSTGRES) args := by
  intro args member
  obtain rfl := List.mem_singleton.mp member
  refine ⟨fun relation isRelation _ => ?_, fun index isIndex => ?_⟩
  · obtain rfl := List.mem_singleton.mp isRelation
    decide
  · obtain rfl := List.mem_singleton.mp isIndex
    have short : byteLength "idx_9m4y6frkef_name_meta_age" ≤ 63 := by decide
    have name : fieldsIndexName ⟨[["name"], ["meta", "age"]]⟩ noteName = Text.utf16 "idx_9m4y6frkef_name_meta_age" := by decide +kernel
    exact ⟨_, asTableName_note ▸ name, fun _ => short⟩

theorem notes_agree : Agree (dialect .POSTGRES) empty notes where
  config := rfl
  creatable := notes_creatable
  distinct := by
    rw [notes, List.flatMap_singleton, createdNames_note rfl]
    decide +kernel
  free := fun _ _ => List.not_mem_nil
  recognised := fun args member _ => notes_recognised args member
  listed := nofun

/-- Indices over fields that begin alike, and a relation whose name has the prefix already. -/
def alike : IndexModelArgs := { model := note, indices := some [⟨[["firstName"]]⟩, ⟨[["firstAge"]]⟩] }

def prefixed : IndexModelArgs := { model := note, relations := some ["a", "custom_a"] }

/-- A relation with a name that is too long for a column. -/
def long : IndexModelArgs := { model := note, relations := some ["abcdefghijklmnopqrstuvwxyzabcdefghijklmnopqrstuvwxyzabcde"] }

theorem fieldsIndexName_alike (table : String) : fieldsIndexName ⟨[["firstName"]]⟩ table = fieldsIndexName ⟨[["firstAge"]]⟩ table := by
  have start : (Text.utf16 "firstName").take 5 = (Text.utf16 "firstAge").take 5 := by decide
  simp [fieldsIndexName, start]

theorem addColumnPrefix_alike : addColumnPrefix (addColumnPrefix "a") = addColumnPrefix (addColumnPrefix "custom_a") := by
  decide

end TablesFixture

end Ceramic.Indexing
