import Mathlib.Algebra.Group.Nat.Defs
import Mathlib.Data.List.Basic
import Mathlib.Data.List.Induction
import PipeFabric.Qcomp.WhereExpression

/-!
# Sessions of the query compiler

A session creates tables and executes queries, each of which is parsed, checked against
the tables, translated to a C++ source, compiled, loaded and started, or found in the cache
of plans.  The names of the types and of the classes are generated, and the types, the
tables and the plans of earlier queries are kept, also of those that failed.
-/

namespace PipeFabric

open SQL (Text SQLQuery MappedExpression modifyWhereExpression generateWhereExpression)

/-! ## Schemas -/

structure TableInfo where
  mName : Text
  mColumns : List TableInfo.ColumnInfo
  mKeyType : TableInfo.ColumnType

namespace TableInfo

/-- `TableInfo()`, which leaves the type of the key open. -/
def new : TableInfo := ⟨[], [], .Void_Type⟩

/-- `operator<<(std::ostream&, ColumnInfo::ColumnType)`. -/
def ColumnType.print : ColumnType → Text
  | .Void_Type => []
  | .Int_Type => ['i', 'n', 't']
  | .Double_Type => ['d', 'o', 'u', 'b', 'l', 'e']
  | .String_Type => ['s', 't', 'd', ':', ':', 's', 't', 'r', 'i', 'n', 'g']
  | .UInt_Type => ['u', 'n', 's', 'i', 'g', 'n', 'e', 'd', ' ', 'i', 'n', 't']

/-- The letter of a type in a signature. -/
def ColumnType.letter : ColumnType → Char
  | .Void_Type => 'V'
  | .Int_Type => 'i'
  | .Double_Type => 'd'
  | .String_Type => 'S'
  | .UInt_Type => 'u'

/-- The loop of `generateTypeDef`. -/
def printTypes : List ColumnInfo → Text
  | [] => []
  | [col] => col.mColType.print
  | col :: next :: cols => col.mColType.print ++ ',' :: ' ' :: printTypes (next :: cols)

def generateTypeDef (this : TableInfo) : Text :=
  ['T', 'u', 'p', 'l', 'e', 'P', 't', 'r', '<'] ++ printTypes this.mColumns ++ ['>']

def typeSignature (this : TableInfo) : Text :=
  '[' :: this.mColumns.map (fun col => col.mColType.letter) ++ [']']

/-- `findColumnByName`; `none` for -1. -/
def findColumnByName (this : TableInfo) (colName : Text) : Option Nat :=
  this.mColumns.findIdx? fun col => col.mColName = colName

theorem ColumnType.letter_injective : Function.Injective ColumnType.letter := by
  intro first second same
  cases first <;> cases second <;> first | rfl | exact absurd same (by decide)

/-- Schemas of one signature have one type. -/
theorem generateTypeDef_eq {first second : TableInfo}
    (same : first.typeSignature = second.typeSignature) :
    first.generateTypeDef = second.generateTypeDef := by
  have letters := List.append_cancel_right (List.cons.inj same).2
  have types : first.mColumns.map ColumnInfo.mColType =
      second.mColumns.map ColumnInfo.mColType := by
    apply List.map_injective_iff.mpr ColumnType.letter_injective
    rw [List.map_map, List.map_map]
    exact letters
  have printed : ∀ firsts seconds : List ColumnInfo,
      firsts.map ColumnInfo.mColType = seconds.map ColumnInfo.mColType →
      printTypes firsts = printTypes seconds := by
    intro firsts
    induction firsts with
    | nil =>
        intro seconds same
        rw [List.map_eq_nil_iff.mp same.symm]
    | cons col cols induction =>
        intro seconds same
        cases seconds with
        | nil => cases same
        | cons other others =>
            obtain ⟨here, later⟩ := List.cons.inj same
            have rest := induction others later
            cases cols with
            | nil =>
                rw [List.map_eq_nil_iff.mp later.symm, printTypes, printTypes, here]
            | cons next cols =>
                cases others with
                | nil => cases later
                | cons _ _ => rw [printTypes, printTypes, here, rest]
  rw [generateTypeDef, generateTypeDef, printed _ _ types]

end TableInfo

/-! ## Names -/

namespace UniqueNameGenerator

/-- `uniqueName`, when the counter has been increased. -/
def uniqueName (mCounter : Nat) (pre : Text) : Text :=
  pre ++ '_' :: Nat.toDigits 10 mCounter

/-- `mCounter++` on an `unsigned int`. -/
def next (mCounter : Nat) : Nat := (mCounter + 1) % 2 ^ 32

theorem uniqueName_injective (pre : Text) {first second : Nat}
    (same : uniqueName first pre = uniqueName second pre) : first = second := by
  have digits := (List.cons.inj (List.append_cancel_left same)).2
  rw [← Nat.ofDigitChars_ten_toDigits (n := first), digits, Nat.ofDigitChars_ten_toDigits]

end UniqueNameGenerator

/-! ## The columns that a condition names -/

namespace SQL

/-- The columns that an operand names. -/
def Operand.columns : Operand → List Text
  | .nil => []
  | .literal _ => []
  | .column columnName_ => [columnName_]
  | .rightAssoc left_ => left_.columns
  | .expression head_ tail_ => head_.columns ++ columnsTail tail_
where
  columnsTail : List (Text × Operand) → List Text
    | [] => []
    | (_, operand_) :: tail_ => operand_.columns ++ columnsTail tail_

/-- The columns that a condition names. -/
def Expression.columns (expr : Expression) : List Text :=
  expr.head_.columns ++ Operand.columns.columnsTail expr.tail_

/-- A step of the mapping succeeds if both parts do. -/
theorem isSome_bind_both {First Second Result : Type} (first : Option First)
    (second : Option Second) (make : First → Second → Result) :
    (do let a ← first; let b ← second; return make a b).isSome ↔
      first.isSome ∧ second.isSome := by
  cases first <;> cases second <;> simp

theorem mapColumns_isSome (columnMap : Text → Option Nat) (operand : Operand) :
    (mapColumns columnMap operand).isSome ↔
      ∀ column ∈ operand.columns, (columnMap column).isSome := by
  induction operand using mapColumns.induct (fun tail_ =>
    (mapColumns.mapTail columnMap tail_).isSome ↔
      ∀ column ∈ Operand.columns.columnsTail tail_, (columnMap column).isSome) with
  | case1 => simp [mapColumns, Operand.columns]
  | case2 value_ => simp [mapColumns, Operand.columns]
  | case3 columnName_ => simp [mapColumns, Operand.columns]
  | case4 left_ induction => rw [mapColumns, Option.isSome_map, induction, Operand.columns]
  | case5 head_ tail_ head tail =>
      rw [mapColumns, isSome_bind_both, head, tail, Operand.columns, List.forall_mem_append]
  | case6 => simp [mapColumns.mapTail, Operand.columns.columnsTail]
  | case7 operator_ operand_ tail_ head tail =>
      rw [mapColumns.mapTail, isSome_bind_both, head, tail, Operand.columns.columnsTail,
        List.forall_mem_append]

theorem columnMap_isSome (inputSchema : List TableInfo.ColumnInfo) (columnName_ : Text) :
    (columnMap inputSchema columnName_).isSome ↔
      ∃ column ∈ inputSchema, column.mColName = columnName_ := by
  induction inputSchema using List.reverseRecOn with
  | nil => simp [columnMap]
  | append_singleton columns last induction =>
      rw [columnMap] at induction ⊢
      rw [List.zipIdx_append, List.foldl_append]
      by_cases here : last.mColName = columnName_ <;> simp [here, induction]

/-- The positions of a condition are found if the schema has the columns that it names. -/
theorem modifyWhereExpression_isSome (inputSchema : List TableInfo.ColumnInfo)
    (condition : Expression) :
    (modifyWhereExpression inputSchema condition).isSome ↔
      ∀ name ∈ condition.columns, ∃ column ∈ inputSchema, column.mColName = name := by
  have mapped := mapColumns_isSome (columnMap inputSchema)
    (.expression condition.head_ condition.tail_)
  rw [mapColumns, isSome_bind_both] at mapped
  rw [modifyWhereExpression, isSome_bind_both, mapped]
  simp only [columnMap_isSome]
  rfl

end SQL

/-! ## Plans -/

namespace QueryCompiler

/-- The operators of a plan as `constructFromSQLQuery` makes them. -/
inductive PlanOp where
  | FromTable_Op (tableName : Text)
  | Where_Op (mChild : PlanOp) (condition : SQL.Expression)
  | Map_Op (mChild : PlanOp) (columns : List Text)

/-- `Plan::constructFromSQLQuery`. -/
def constructFromSQLQuery (q : SQLQuery) : PlanOp :=
  let tbl := PlanOp.FromTable_Op q.tableName_
  let next :=
    match q.whereClause_ with
    | none => tbl
    | some condition_ => .Where_Op tbl condition_
  if q.columnList_ = [['*']] then next else .Map_Op next q.columnList_

/-- The operators with what `checkPlan` finds out. -/
inductive CheckedOp where
  | FromTable_Op (tableName : Text) (tableInfo : TableInfo)
  | Where_Op (mChild : CheckedOp) (condition : MappedExpression)
  | Map_Op (mChild : CheckedOp) (positions : List Nat)

/-- `mOutputSchema`; `constructMapSchema` does not set that of a projection. -/
def CheckedOp.mOutputSchema : CheckedOp → TableInfo
  | .FromTable_Op _ tableInfo => tableInfo
  | .Where_Op mChild _ => mChild.mOutputSchema
  | .Map_Op _ _ => .new

/-- `constructMapSchema`: the positions. -/
def constructMapSchema (inputSchema : TableInfo) (columns : List Text) : Option (List Nat) :=
  columns.mapM inputSchema.findColumnByName

/-! ## Generated sources -/

/-- What is generated for an operator. -/
inductive Stage where
  | selectFromTable (typeName keyType tableName : Text)
  | where (condition : Text)
  | map (resTypeName expression : Text)

/-- A generated source: the class, the typedefs as pairs of a name and a type, the tables as
triples of a name, a type and the type of the key, and the operators.  The text around is
the same in every source. -/
structure Source where
  className : Text
  typedefs : List (Text × Text)
  tables : List (Text × Text × Text)
  stages : List Stage

/-- `generateMapExpression`. -/
def generateMapExpression : List Nat → Text
  | [] => []
  | [p] => ['g', 'e', 't', '<'] ++ Nat.toDigits 10 p ++ ['>', '(', 't', 'p', ')']
  | p :: next :: positions =>
      ['g', 'e', 't', '<'] ++ Nat.toDigits 10 p ++ ['>', '(', 't', 'p', ')', ',', ' '] ++
        generateMapExpression (next :: positions)

/-! ## The state of a session -/

/-- Why a query is not executed.  `undefined` is the use of a table without a schema. -/
inductive Failure where
  | parsing
  | tableNotFound
  | undefined
  | columnNotFound
  | unknownColumn
  | unknownType
  | loading
  | starting
  deriving DecidableEq

/-- The process: the tables of the context, the sets and maps of the compiler, the counter
of the names and the cache.  `sources` is not part of the program: the sources that were
written, with the queries. -/
structure Session where
  contextTables : List (Text × Option TableInfo)
  mTableSet : List Text
  mTypeTable : List (Text × TableInfo × Text)
  mCounter : Nat
  planCache : List (Text × Text)
  sources : List (Text × Source)

def init : Session := ⟨[], [], [], 0, [], []⟩

/-- `find` of a `std::map`. -/
def find {Value : Type} (entries : List (Text × Value)) (key : Text) : Option Value :=
  (entries.find? fun entry => entry.1 = key).map Prod.snd

/-- The insertion of a new key into a `std::map`, in the order of the keys. -/
def insert {Value : Type} (key : Text) (value : Value) :
    List (Text × Value) → List (Text × Value)
  | [] => [(key, value)]
  | entry :: entries =>
      if key < entry.1 then (key, value) :: entry :: entries
      else entry :: insert key value entries

/-- `insert` of a `std::set`. -/
def insertName (name : Text) (names : List Text) : List Text :=
  if name ∈ names then names
  else names.filter (· < name) ++ name :: names.filter fun other => ¬ other < name

/-- The name of a type. -/
def typeName (mCounter : Nat) : Text :=
  UniqueNameGenerator.uniqueName mCounter ['T', 'u', 'p', 'l', 'e'] ++
    ['_', 'T', 'y', 'p', 'e', '_']

/-- The name of a class. -/
def className (mCounter : Nat) : Text :=
  UniqueNameGenerator.uniqueName mCounter ['Q', 'u', 'e', 'r', 'y']

/-- `TypeManager::registerType`. -/
def registerType (session : Session) (tInfo : TableInfo) : Session :=
  match find session.mTypeTable tInfo.typeSignature with
  | some _ => session
  | none =>
      let mCounter := UniqueNameGenerator.next session.mCounter
      { session with
        mCounter := mCounter
        mTypeTable :=
          insert tInfo.typeSignature (tInfo, typeName mCounter) session.mTypeTable }

/-- `TypeManager::nameOfType`. -/
def nameOfType (session : Session) (tInfo : TableInfo) : Option Text :=
  (find session.mTypeTable tInfo.typeSignature).map Prod.snd

/-- `checkPlan`, from the table on. -/
def checkPlan : PlanOp → Session → Except Failure CheckedOp × Session
  | .FromTable_Op tableName, session =>
      match find session.contextTables tableName with
      | none => (.error .tableNotFound, session)
      | some none => (.error .undefined, session)
      | some (some tableInfo) =>
          (.ok (.FromTable_Op tableName tableInfo),
            registerType
              { session with mTableSet := insertName tableName session.mTableSet } tableInfo)
  | .Where_Op mChild condition, session =>
      match checkPlan mChild session with
      | (.error failure, session) => (.error failure, session)
      | (.ok child, session) =>
          match modifyWhereExpression child.mOutputSchema.mColumns condition with
          | none => (.error .columnNotFound, session)
          | some condition => (.ok (.Where_Op child condition), session)
  | .Map_Op mChild columns, session =>
      match checkPlan mChild session with
      | (.error failure, session) => (.error failure, session)
      | (.ok child, session) =>
          match constructMapSchema child.mOutputSchema columns with
          | none => (.error .unknownColumn, session)
          | some positions =>
              (.ok (.Map_Op child positions), registerType session .new)

/-- The lines of `generateQuery` for the tables. -/
def generateTables (session : Session) : List Text → Option (List (Text × Text × Text))
  | [] => some []
  | tbl :: tables => do
      let tblInfo ← (find session.contextTables tbl).join
      let typeName ← nameOfType session tblInfo
      let others ← generateTables session tables
      return (tbl, typeName, tblInfo.mKeyType.print) :: others

/-- The lines of `generateQuery` for the operators. -/
def generateStages (session : Session) : CheckedOp → Option (List Stage)
  | .FromTable_Op tableName tableInfo => do
      let typeName ← nameOfType session tableInfo
      return [.selectFromTable typeName tableInfo.mKeyType.print tableName]
  | .Where_Op mChild condition => do
      let stages ← generateStages session mChild
      return stages ++ [.where (generateWhereExpression condition)]
  | .Map_Op mChild positions => do
      let stages ← generateStages session mChild
      let resTypeName ← nameOfType session .new
      return stages ++ [.map resTypeName (generateMapExpression positions)]

/-- `generateTypedefs`. -/
def generateTypedefs (session : Session) : List (Text × Text) :=
  session.mTypeTable.map fun entry => (entry.2.2, entry.2.1.generateTypeDef)

/-- `generateCode`. -/
def generateCode (session : Session) (plan : CheckedOp) (className : Text) : Option Source := do
  let tables ← generateTables session session.mTableSet
  let stages ← generateStages session plan
  return ⟨className, generateTypedefs session, tables, stages⟩

/-- `compileQuery`; the call of the compiler returns the name also when it fails. -/
def compileQuery (queryString : Text) (session : Session) : Except Failure Text × Session :=
  match SQL.parse queryString with
  | none => (.error .parsing, session)
  | some query =>
      match checkPlan (constructFromSQLQuery query) session with
      | (.error failure, session) => (.error failure, session)
      | (.ok plan, session) =>
          let mCounter := UniqueNameGenerator.next session.mCounter
          let cppName := className mCounter
          let session := { session with mCounter := mCounter }
          match generateCode session plan cppName with
          | none => (.error .unknownType, session)
          | some source =>
              (.ok cppName, { session with sources := session.sources ++ [(queryString, source)] })

/-- What comes of a call of `start` of a topology. -/
inductive Outcome where
  | returns
  | out_of_range
  | throws
  deriving DecidableEq

/-- What is outside of the compiler in a call of `execQuery`: what comes of starting the
cached topology, whether the library is loaded and the topology created, and what comes of
starting that. -/
structure Environment where
  cached : Outcome
  loads : Bool
  created : Outcome

/-- The part of `execQuery` behind the cache. -/
def compileAndLoad (environment : Environment) (queryString : Text) (session : Session) :
    Except Failure Text × Session :=
  match compileQuery queryString session with
  | (.error failure, session) => (.error failure, session)
  | (.ok queryName, session) =>
      if environment.loads then
        let session := { session with
          planCache :=
            if (find session.planCache queryString).isSome then session.planCache
            else insert queryString queryName session.planCache }
        if environment.created = .returns then (.ok queryName, session)
        else (.error .starting, session)
      else (.error .loading, session)

/-- `execQuery`: the library whose builder is returned. -/
def execQuery (environment : Environment) (queryString : Text) (session : Session) :
    Except Failure Text × Session :=
  match find session.planCache queryString with
  | some libraryName =>
      match environment.cached with
      | .returns => (.ok libraryName, session)
      | .out_of_range => compileAndLoad environment queryString session
      | .throws => (.error .starting, session)
  | none => compileAndLoad environment queryString session

/-- `createTable`; it throws an exception if the table exists. -/
def createTable (tblName : Text) (tblInfo : Option TableInfo) (session : Session) : Session :=
  if (find session.contextTables tblName).isSome then session
  else { session with contextTables := insert tblName tblInfo session.contextTables }

/-- The calls of a session: `createTable` with a schema or with nothing but a name, and
`execQuery`. -/
inductive Call where
  | createTable (tblInfo : TableInfo)
  | createNamedTable (tblName : Text)
  | execQuery (environment : Environment) (queryString : Text)

def step (session : Session) : Call → Session
  | .createTable tblInfo => QueryCompiler.createTable tblInfo.mName (some tblInfo) session
  | .createNamedTable tblName => QueryCompiler.createTable tblName none session
  | .execQuery environment queryString =>
      (QueryCompiler.execQuery environment queryString session).2

/-- The session after some calls. -/
def run (calls : List Call) : Session := calls.foldl step init

/-! ## Finding and inserting -/

section

variable {Value : Type} {entries : List (Text × Value)} {key other : Text} {value : Value}

theorem mem_of_find (found : find entries key = some value) : (key, value) ∈ entries := by
  obtain ⟨entry, present, rfl⟩ := Option.map_eq_some_iff.mp found
  have same := List.find?_some present
  rw [← of_decide_eq_true same]
  exact List.mem_of_find?_eq_some present

theorem find_isSome (member : (key, value) ∈ entries) : (find entries key).isSome := by
  rw [find, Option.isSome_map, List.find?_isSome]
  exact ⟨_, member, decide_eq_true rfl⟩

theorem insert_perm (key : Text) (value : Value) (entries : List (Text × Value)) :
    (insert key value entries).Perm ((key, value) :: entries) := by
  induction entries with
  | nil => exact .refl _
  | cons first entries induction =>
      rw [insert]
      split
      · exact .refl _
      · exact (induction.cons first).trans (.swap _ _ _)

theorem mem_insert {entry : Text × Value} :
    entry ∈ insert key value entries ↔ entry = (key, value) ∨ entry ∈ entries := by
  rw [(insert_perm key value entries).mem_iff, List.mem_cons]

theorem find_insert_of_ne (different : other ≠ key) :
    find (insert key value entries) other = find entries other := by
  induction entries with
  | nil => simp [insert, find, Ne.symm different]
  | cons first entries induction =>
      rw [insert]
      split
      · simp [find, Ne.symm different]
      · by_cases here : first.1 = other
        · simp [find, here]
        · simpa [find, here] using induction

theorem mem_insertName {name : Text} {names : List Text} :
    other ∈ insertName name names ↔ other = name ∨ other ∈ names := by
  rw [insertName]
  split
  next member =>
    constructor
    · exact .inr
    · intro either
      rcases either with rfl | inside
      · exact member
      · exact inside
  next =>
    simp only [List.mem_append, List.mem_filter, List.mem_cons, decide_eq_true_eq]
    by_cases less : other < name
    · simp [less, or_comm]
    · simp [less]

end

/-! ## What a session keeps -/

/-- The type of a schema has a name. -/
def Registered (session : Session) (tInfo : TableInfo) : Prop :=
  (find session.mTypeTable tInfo.typeSignature).isSome

/-- A source declares a type for a schema. -/
def Source.Declares (source : Source) (typeName : Text) (tInfo : TableInfo) : Prop :=
  (typeName, tInfo.generateTypeDef) ∈ source.typedefs

/-- The names that a generated operator uses are declared.  A projection is declared to
return empty tuples. -/
def Stage.Closed (source : Source) : Stage → Prop
  | .selectFromTable typeName keyType tableName => (tableName, typeName, keyType) ∈ source.tables
  | .where _ => True
  | .map resTypeName _ => source.Declares resTypeName .new

/-- A source declares every type once, and the types of the schemas of its tables and of its
operators are among them. -/
structure Source.Closed (session : Session) (source : Source) : Prop where
  once : (source.typedefs.map Prod.fst).Nodup
  tables : ∀ table ∈ source.tables, ∃ tInfo,
    find session.contextTables table.1 = some (some tInfo) ∧
      source.Declares table.2.1 tInfo ∧ table.2.2 = tInfo.mKeyType.print
  stages : ∀ stage ∈ source.stages, stage.Closed source

/-- The names up to a number of the counter are used for at most one purpose. -/
structure Inv (session : Session) : Prop where
  types : ∀ entry ∈ session.mTypeTable, entry.1 = entry.2.1.typeSignature ∧
    ∃ number, number ≤ session.mCounter ∧ entry.2.2 = typeName number
  typeNames : (session.mTypeTable.map fun entry => entry.2.2).Nodup
  tableSet : ∀ name ∈ session.mTableSet, ∃ tInfo,
    find session.contextTables name = some (some tInfo) ∧ Registered session tInfo
  sources : ∀ entry ∈ session.sources, entry.2.Closed session ∧
    ∃ number, number ≤ session.mCounter ∧ entry.2.className = className number
  classNames : (session.sources.map fun entry => entry.2.className).Nodup
  cached : ∀ entry ∈ session.planCache, ∃ source, (entry.1, source) ∈ session.sources ∧
    source.className = entry.2

theorem Inv.init : Inv init := by
  constructor <;> simp [QueryCompiler.init]

/-- What the steps of a session leave alone, or let grow. -/
structure Grows (session next : Session) : Prop where
  tables : ∀ name tInfo, find session.contextTables name = some tInfo →
    find next.contextTables name = some tInfo
  types : ∀ tInfo, Registered session tInfo → Registered next tInfo
  tableSet : ∀ name ∈ session.mTableSet, name ∈ next.mTableSet
  counter : session.mCounter ≤ next.mCounter

theorem Grows.refl (session : Session) : Grows session session :=
  ⟨fun _ _ => id, fun _ => id, fun _ => id, Nat.le_refl _⟩

theorem Grows.trans {first second third : Session} (one : Grows first second)
    (two : Grows second third) : Grows first third where
  tables name tInfo found := two.tables name tInfo (one.tables name tInfo found)
  types tInfo known := two.types tInfo (one.types tInfo known)
  tableSet name member := two.tableSet name (one.tableSet name member)
  counter := Nat.le_trans one.counter two.counter

theorem Source.Closed.grow {session next : Session} {source : Source}
    (closed : source.Closed session) (grows : Grows session next) : source.Closed next where
  once := closed.once
  tables table member := by
    obtain ⟨tInfo, found, rest⟩ := closed.tables table member
    exact ⟨tInfo, grows.tables _ _ found, rest⟩
  stages := closed.stages

/-- The counter has not been around. -/
theorem next_eq {mCounter : Nat} (bounded : mCounter + 1 < 2 ^ 32) :
    UniqueNameGenerator.next mCounter = mCounter + 1 :=
  Nat.mod_eq_of_lt bounded

theorem typeName_injective {first second : Nat} (same : typeName first = typeName second) :
    first = second :=
  UniqueNameGenerator.uniqueName_injective _ (List.append_cancel_right same)

theorem className_injective {first second : Nat} (same : className first = className second) :
    first = second :=
  UniqueNameGenerator.uniqueName_injective _ same

/-- A session that has the same sources and plans. -/
structure SameSources (session next : Session) : Prop where
  contextTables : next.contextTables = session.contextTables
  sources : next.sources = session.sources
  planCache : next.planCache = session.planCache

theorem registerType_registered (session : Session) (tInfo : TableInfo) :
    Registered (registerType session tInfo) tInfo := by
  unfold registerType
  cases found : find session.mTypeTable tInfo.typeSignature with
  | some entry =>
      dsimp only
      rw [Registered, found]
      rfl
  | none => exact find_isSome (mem_insert.mpr (.inl rfl))

theorem registerType_grows (session : Session) (tInfo : TableInfo)
    (bounded : session.mCounter + 1 < 2 ^ 32) :
    Grows session (registerType session tInfo) ∧
      SameSources session (registerType session tInfo) ∧
      (registerType session tInfo).mTableSet = session.mTableSet ∧
      (registerType session tInfo).mCounter ≤ session.mCounter + 1 := by
  unfold registerType
  cases found : find session.mTypeTable tInfo.typeSignature with
  | some entry => exact ⟨.refl session, ⟨rfl, rfl, rfl⟩, rfl, Nat.le_succ _⟩
  | none =>
      dsimp only
      rw [next_eq bounded]
      refine ⟨⟨fun _ _ => id, ?_, fun _ => id, Nat.le_succ _⟩, ⟨rfl, rfl, rfl⟩, rfl,
        Nat.le_refl _⟩
      intro other known
      obtain ⟨value, present⟩ := Option.isSome_iff_exists.mp known
      exact find_isSome (mem_insert.mpr (.inr (mem_of_find present)))

/-- What an invariant says of the sources and plans is kept while they stay. -/
theorem Inv.of_grows {session next : Session} (inv : Inv session) (grows : Grows session next)
    (same : SameSources session next)
    (types : ∀ entry ∈ next.mTypeTable, entry.1 = entry.2.1.typeSignature ∧
      ∃ number, number ≤ next.mCounter ∧ entry.2.2 = typeName number)
    (typeNames : (next.mTypeTable.map fun entry => entry.2.2).Nodup)
    (tableSet : ∀ name ∈ next.mTableSet, ∃ tInfo,
      find next.contextTables name = some (some tInfo) ∧ Registered next tInfo) :
    Inv next where
  types := types
  typeNames := typeNames
  tableSet := tableSet
  sources entry member := by
    rw [same.sources] at member
    obtain ⟨closed, number, used, name⟩ := inv.sources entry member
    exact ⟨closed.grow grows, number, Nat.le_trans used grows.counter, name⟩
  classNames := by
    rw [same.sources]
    exact inv.classNames
  cached := by
    rw [same.sources, same.planCache]
    exact inv.cached

theorem Inv.registers {session : Session} (inv : Inv session) (tInfo : TableInfo)
    (bounded : session.mCounter + 1 < 2 ^ 32) : Inv (registerType session tInfo) := by
  obtain ⟨grows, same, tables, _⟩ := registerType_grows session tInfo bounded
  apply inv.of_grows grows same
  · intro entry member
    revert member
    unfold registerType
    cases found : find session.mTypeTable tInfo.typeSignature with
    | some _ => exact inv.types entry
    | none =>
        dsimp only
        rw [next_eq bounded]
        intro member
        rcases mem_insert.mp member with rfl | before
        · exact ⟨rfl, _, Nat.le_refl _, rfl⟩
        · obtain ⟨signature, number, used, name⟩ := inv.types entry before
          exact ⟨signature, number, Nat.le_succ_of_le used, name⟩
  · unfold registerType
    cases found : find session.mTypeTable tInfo.typeSignature with
    | some _ => exact inv.typeNames
    | none =>
        dsimp only
        rw [next_eq bounded]
        apply (((insert_perm _ _ _).map _).nodup_iff).mpr
        refine List.nodup_cons.mpr ⟨?_, inv.typeNames⟩
        intro member
        obtain ⟨entry, before, same⟩ := List.mem_map.mp member
        obtain ⟨_, number, used, name⟩ := inv.types entry before
        have equal := typeName_injective (name.symm.trans same)
        omega
  · intro name member
    rw [tables] at member
    obtain ⟨other, found, known⟩ := inv.tableSet name member
    exact ⟨other, grows.tables _ _ found, grows.types _ known⟩

/-- The set of tables takes a name whose schema has a type. -/
theorem Inv.addTable {session : Session} (inv : Inv session) {name : Text}
    {tInfo : TableInfo} (found : find session.contextTables name = some (some tInfo))
    (known : Registered session tInfo) :
    Inv { session with mTableSet := insertName name session.mTableSet } := by
  have grows : Grows session { session with mTableSet := insertName name session.mTableSet } := by
    refine ⟨fun _ _ => id, fun _ => id, ?_, Nat.le_refl _⟩
    intro other member
    exact mem_insertName.mpr (.inr member)
  apply inv.of_grows grows ⟨rfl, rfl, rfl⟩ inv.types inv.typeNames
  intro other member
  rcases mem_insertName.mp member with rfl | before
  · exact ⟨tInfo, found, known⟩
  · exact inv.tableSet other before

theorem registerType_insertName (session : Session) (names : List Text) (tInfo : TableInfo) :
    registerType { session with mTableSet := names } tInfo =
      { registerType session tInfo with mTableSet := names } := by
  unfold registerType
  dsimp only
  cases find session.mTypeTable tInfo.typeSignature <;> rfl

/-! ## Checked plans -/

/-- The types and tables of a checked plan are known. -/
def CheckedOp.Known (session : Session) : CheckedOp → Prop
  | .FromTable_Op tableName tableInfo => tableName ∈ session.mTableSet ∧
      find session.contextTables tableName = some (some tableInfo)
  | .Where_Op mChild _ => mChild.Known session
  | .Map_Op mChild _ => mChild.Known session ∧ Registered session .new

theorem CheckedOp.Known.grow {session next : Session} {plan : CheckedOp}
    (known : plan.Known session) (grows : Grows session next) : plan.Known next := by
  induction plan with
  | FromTable_Op tableName tableInfo =>
      exact ⟨grows.tableSet _ known.1, grows.tables _ _ known.2⟩
  | Where_Op mChild condition induction => exact induction known
  | Map_Op mChild positions induction => exact ⟨induction known.1, grows.types _ known.2⟩

/-- How often `checkPlan` may register a type. -/
def PlanOp.types : PlanOp → Nat
  | .FromTable_Op _ => 1
  | .Where_Op mChild _ => mChild.types
  | .Map_Op mChild _ => mChild.types + 1

/-- What is left behind by a step that makes some names at most and writes no source,
whether it fails or not. -/
structure Checks (session next : Session) (names : Nat) : Prop where
  inv : Inv next
  grows : Grows session next
  same : SameSources session next
  counter : next.mCounter ≤ session.mCounter + names

theorem Checks.refl {session : Session} (inv : Inv session) (names : Nat) :
    Checks session session names :=
  ⟨inv, .refl session, ⟨rfl, rfl, rfl⟩, Nat.le_add_right _ _⟩

theorem Checks.trans {first second third : Session} {some more : Nat}
    (one : Checks first second some) (two : Checks second third more) :
    Checks first third (some + more) where
  inv := two.inv
  grows := one.grows.trans two.grows
  same :=
    ⟨two.same.contextTables.trans one.same.contextTables,
      two.same.sources.trans one.same.sources,
      two.same.planCache.trans one.same.planCache⟩
  counter := by
    have first := one.counter
    have second := two.counter
    omega

theorem Checks.register {session : Session} (inv : Inv session) (tInfo : TableInfo)
    (bounded : session.mCounter + 1 < 2 ^ 32) :
    Checks session (registerType session tInfo) 1 :=
  have grows := registerType_grows session tInfo bounded
  ⟨inv.registers tInfo bounded, grows.1, grows.2.1, grows.2.2.2⟩

/-- The operator for a table adds the table and its type. -/
theorem Checks.fromTable {session : Session} (inv : Inv session) {tableName : Text}
    {tableInfo : TableInfo} (bounded : session.mCounter + 1 < 2 ^ 32)
    (found : find session.contextTables tableName = some (some tableInfo)) :
    Checks session
      (registerType { session with mTableSet := insertName tableName session.mTableSet }
        tableInfo) 1 := by
  have registers := Checks.register inv tableInfo bounded
  have tables := (registerType_grows session tableInfo bounded).2.2.1
  rw [registerType_insertName]
  have named := registers.inv.addTable (registers.grows.tables _ _ found)
    (registerType_registered session tableInfo)
  rw [tables] at named
  refine ⟨named, ⟨registers.grows.tables, registers.grows.types, ?_,
    registers.grows.counter⟩, ⟨registers.same.contextTables, registers.same.sources,
    registers.same.planCache⟩, registers.counter⟩
  intro name member
  exact mem_insertName.mpr (.inr member)

theorem checkPlan_checks (plan : PlanOp) {session : Session} (inv : Inv session)
    (bounded : session.mCounter + plan.types < 2 ^ 32) :
    Checks session (checkPlan plan session).2 plan.types ∧
      ∀ checked, (checkPlan plan session).1 = .ok checked →
        checked.Known (checkPlan plan session).2 := by
  induction plan with
  | FromTable_Op tableName =>
      rw [checkPlan]
      cases found : find session.contextTables tableName with
      | none => exact ⟨.refl inv _, fun checked failed => by cases failed⟩
      | some schema =>
          cases schema with
          | none => exact ⟨.refl inv _, fun checked failed => by cases failed⟩
          | some tableInfo =>
              refine ⟨.fromTable inv bounded found, ?_⟩
              intro checked made
              cases made
              dsimp only
              rw [registerType_insertName]
              exact ⟨mem_insertName.mpr (.inl rfl),
                (registerType_grows session tableInfo bounded).1.tables _ _ found⟩
  | Where_Op mChild condition induction =>
      obtain ⟨checks, known⟩ := induction bounded
      rw [checkPlan]
      generalize checkPlan mChild session = result at checks known
      obtain ⟨checked, next⟩ := result
      cases checked with
      | error failure => exact ⟨checks, fun checked failed => by cases failed⟩
      | ok child =>
          dsimp only
          cases modifyWhereExpression child.mOutputSchema.mColumns condition with
          | none => exact ⟨checks, fun checked failed => by cases failed⟩
          | some condition =>
              refine ⟨checks, ?_⟩
              intro checked made
              cases made
              exact known child rfl
  | Map_Op mChild columns induction =>
      have room : session.mCounter + (mChild.types + 1) < 2 ^ 32 := bounded
      obtain ⟨checks, known⟩ := induction (by omega)
      rw [checkPlan, PlanOp.types]
      generalize checkPlan mChild session = result at checks known
      obtain ⟨checked, next⟩ := result
      cases checked with
      | error failure =>
          exact ⟨checks.trans (.refl checks.inv 1), fun checked failed => by cases failed⟩
      | ok child =>
          dsimp only
          cases constructMapSchema child.mOutputSchema columns with
          | none =>
              exact ⟨checks.trans (.refl checks.inv 1), fun checked failed => by cases failed⟩
          | some positions =>
              have counter : next.mCounter ≤ session.mCounter + mChild.types := checks.counter
              have registers := Checks.register checks.inv .new
                (show next.mCounter + 1 < 2 ^ 32 by omega)
              refine ⟨checks.trans registers, ?_⟩
              intro checked made
              cases made
              exact ⟨(known child rfl).grow registers.grows, registerType_registered _ _⟩

/-! ## Generated sources are closed -/

/-- The name of a registered type is declared. -/
theorem Inv.named {session : Session} (inv : Inv session) {tInfo : TableInfo}
    (known : Registered session tInfo) :
    ∃ typeName, nameOfType session tInfo = some typeName ∧
      (typeName, tInfo.generateTypeDef) ∈ generateTypedefs session := by
  obtain ⟨⟨other, typeName⟩, found⟩ := Option.isSome_iff_exists.mp known
  have present := mem_of_find found
  have signature := (inv.types _ present).1
  refine ⟨typeName, ?_, ?_⟩
  · rw [nameOfType, found]
    rfl
  · rw [TableInfo.generateTypeDef_eq signature]
    exact List.mem_map_of_mem present

/-- The tables are declared with the types of their schemas. -/
theorem Inv.tablesDeclared {session : Session} (inv : Inv session) (names : List Text)
    (known : ∀ name ∈ names, ∃ tInfo,
      find session.contextTables name = some (some tInfo) ∧ Registered session tInfo) :
    ∃ tables, generateTables session names = some tables ∧ tables.map Prod.fst = names ∧
      ∀ table ∈ tables, ∃ tInfo, find session.contextTables table.1 = some (some tInfo) ∧
        nameOfType session tInfo = some table.2.1 ∧
        (table.2.1, tInfo.generateTypeDef) ∈ generateTypedefs session ∧
        table.2.2 = tInfo.mKeyType.print := by
  induction names with
  | nil => exact ⟨[], rfl, rfl, by simp⟩
  | cons name names induction =>
      obtain ⟨tInfo, found, registered⟩ := known name List.mem_cons_self
      obtain ⟨typeName, named, declared⟩ := inv.named registered
      obtain ⟨tables, generated, same, closed⟩ :=
        induction fun other member => known other (List.mem_cons_of_mem _ member)
      refine ⟨(name, typeName, tInfo.mKeyType.print) :: tables, ?_, ?_, ?_⟩
      · simp [generateTables, found, named, generated]
      · rw [List.map_cons, same]
      · intro table member
        rcases List.mem_cons.mp member with rfl | later
        · exact ⟨tInfo, found, named, declared, rfl⟩
        · exact closed table later

/-- The operators use names that are declared. -/
theorem Inv.stagesClosed {session : Session} (inv : Inv session) (source : Source)
    (typedefs : source.typedefs = generateTypedefs session)
    (tables : generateTables session session.mTableSet = some source.tables)
    {plan : CheckedOp} (known : plan.Known session) :
    ∃ stages, generateStages session plan = some stages ∧
      ∀ stage ∈ stages, stage.Closed source := by
  induction plan with
  | FromTable_Op tableName tableInfo =>
      obtain ⟨member, found⟩ := known
      obtain ⟨generated, made, same, closed⟩ := inv.tablesDeclared _ inv.tableSet
      cases made.symm.trans tables
      rw [← same] at member
      obtain ⟨table, declared, rfl⟩ := List.mem_map.mp member
      obtain ⟨tInfo, schema, named, _, key⟩ := closed table declared
      cases schema.symm.trans found
      refine ⟨[.selectFromTable table.2.1 tableInfo.mKeyType.print table.1], ?_, ?_⟩
      · simp [generateStages, named]
      · intro stage only
        cases List.mem_singleton.mp only
        rw [Stage.Closed, ← key]
        exact declared
  | Where_Op mChild condition induction =>
      obtain ⟨stages, generated, closed⟩ := induction known
      refine ⟨stages ++ [.where (generateWhereExpression condition)], ?_, ?_⟩
      · simp [generateStages, generated]
      · intro stage member
        rcases List.mem_append.mp member with before | last
        · exact closed stage before
        · cases List.mem_singleton.mp last
          trivial
  | Map_Op mChild positions induction =>
      obtain ⟨stages, generated, closed⟩ := induction known.1
      obtain ⟨typeName, named, declared⟩ := inv.named known.2
      refine ⟨stages ++ [.map typeName (generateMapExpression positions)], ?_, ?_⟩
      · simp [generateStages, generated, named]
      · intro stage member
        rcases List.mem_append.mp member with before | last
        · exact closed stage before
        · cases List.mem_singleton.mp last
          rw [Stage.Closed, Source.Declares, typedefs]
          exact declared

/-- A source is generated for every plan that was checked, and it is closed. -/
theorem Inv.codeClosed {session : Session} (inv : Inv session) {plan : CheckedOp}
    (known : plan.Known session) (className : Text) :
    ∃ source, generateCode session plan className = some source ∧
      source.className = className ∧ source.Closed session := by
  obtain ⟨tables, made, _, closed⟩ := inv.tablesDeclared _ inv.tableSet
  obtain ⟨stages, generated, uses⟩ :=
    inv.stagesClosed ⟨className, generateTypedefs session, tables, []⟩ rfl made known
  refine ⟨⟨className, generateTypedefs session, tables, stages⟩, ?_, rfl, ?_, ?_, ?_⟩
  · simp [generateCode, made, generated]
  · rw [generateTypedefs, List.map_map]
    exact inv.typeNames
  · intro table member
    obtain ⟨tInfo, found, _, declared, key⟩ := closed table member
    exact ⟨tInfo, found, declared, key⟩
  · intro stage member
    have closed := uses stage member
    cases stage <;> exact closed

/-! ## The queries that are compiled -/

theorem constructMapSchema_isSome (inputSchema : TableInfo) (columns : List Text) :
    (constructMapSchema inputSchema columns).isSome ↔
      ∀ name ∈ columns, ∃ column ∈ inputSchema.mColumns, column.mColName = name := by
  rw [constructMapSchema]
  induction columns with
  | nil => simp
  | cons name columns induction =>
      rw [List.mapM_cons, SQL.isSome_bind_both, induction, List.forall_mem_cons,
        TableInfo.findColumnByName]
      simp

/-- What a query needs to be compiled. -/
structure Answerable (session : Session) (query : SQLQuery) (tInfo : TableInfo) : Prop where
  table : find session.contextTables query.tableName_ = some (some tInfo)
  condition : ∀ condition_, query.whereClause_ = some condition_ →
    ∀ name ∈ condition_.columns, ∃ column ∈ tInfo.mColumns, column.mColName = name
  columns : query.columnList_ ≠ [['*']] →
    ∀ name ∈ query.columnList_, ∃ column ∈ tInfo.mColumns, column.mColName = name

theorem checkPlan_fromTable (tableName : Text) (session : Session) (checked : CheckedOp) :
    (checkPlan (.FromTable_Op tableName) session).1 = .ok checked ↔
      ∃ tInfo, find session.contextTables tableName = some (some tInfo) ∧
        checked = .FromTable_Op tableName tInfo := by
  rw [checkPlan]
  cases find session.contextTables tableName with
  | none => simp
  | some schema => cases schema <;> simp [eq_comm]

theorem checkPlan_where (mChild : PlanOp) (condition : SQL.Expression) (session : Session)
    (checked : CheckedOp) :
    (checkPlan (.Where_Op mChild condition) session).1 = .ok checked ↔
      ∃ child mapped, (checkPlan mChild session).1 = .ok child ∧
        modifyWhereExpression child.mOutputSchema.mColumns condition = some mapped ∧
        checked = .Where_Op child mapped := by
  rw [checkPlan]
  generalize checkPlan mChild session = result
  obtain ⟨result, next⟩ := result
  cases result with
  | error failure => simp
  | ok child =>
      cases mapped : modifyWhereExpression child.mOutputSchema.mColumns condition <;>
        simp [mapped, eq_comm]

theorem checkPlan_map (mChild : PlanOp) (columns : List Text) (session : Session)
    (checked : CheckedOp) :
    (checkPlan (.Map_Op mChild columns) session).1 = .ok checked ↔
      ∃ child positions, (checkPlan mChild session).1 = .ok child ∧
        constructMapSchema child.mOutputSchema columns = some positions ∧
        checked = .Map_Op child positions := by
  rw [checkPlan]
  generalize checkPlan mChild session = result
  obtain ⟨result, next⟩ := result
  cases result with
  | error failure => simp
  | ok child =>
      cases found : constructMapSchema child.mOutputSchema columns <;> simp [found, eq_comm]

/-- The queries that pass the check. -/
theorem checkPlan_isOk (query : SQLQuery) (session : Session) :
    (∃ checked, (checkPlan (constructFromSQLQuery query) session).1 = .ok checked) ↔
      ∃ tInfo, Answerable session query tInfo := by
  have answerable : ∀ tInfo, Answerable session query tInfo ↔
      find session.contextTables query.tableName_ = some (some tInfo) ∧
      (∀ condition_ ∈ query.whereClause_,
        (modifyWhereExpression tInfo.mColumns condition_).isSome) ∧
      (query.columnList_ ≠ [['*']] → (constructMapSchema tInfo query.columnList_).isSome) := by
    intro tInfo
    simp only [SQL.modifyWhereExpression_isSome, constructMapSchema_isSome]
    exact ⟨fun needs => ⟨needs.1, needs.2, needs.3⟩, fun needs => ⟨needs.1, needs.2.1, needs.2.2⟩⟩
  simp only [answerable]
  obtain ⟨columnList_, tableName_, whereClause_⟩ := query
  rw [constructFromSQLQuery]
  cases whereClause_ with
  | none =>
      by_cases every : columnList_ = [['*']]
      · simp [every, checkPlan_fromTable]
      · simp [every, checkPlan_fromTable, checkPlan_map, CheckedOp.mOutputSchema,
          Option.isSome_iff_exists]
  | some condition_ =>
      by_cases every : columnList_ = [['*']]
      · simp [every, checkPlan_fromTable, checkPlan_where, CheckedOp.mOutputSchema,
          Option.isSome_iff_exists]
      · simp [every, checkPlan_fromTable, checkPlan_where, checkPlan_map,
          CheckedOp.mOutputSchema, Option.isSome_iff_exists, and_assoc]
/-! ## Calls -/

/-- What a call keeps.  It makes three names at most: of the type of the table, of the type
of the projection and of the class. -/
structure Keeps (session next : Session) : Prop where
  inv : Inv next
  grows : Grows session next
  counter : next.mCounter ≤ session.mCounter + 3
  sources : ∀ entry ∈ session.sources, entry ∈ next.sources
  planCache : ∀ text libraryName, find session.planCache text = some libraryName →
    find next.planCache text = some libraryName

theorem Checks.keeps {session next : Session} {names : Nat} (checks : Checks session next names)
    (few : names ≤ 3) : Keeps session next where
  inv := checks.inv
  grows := checks.grows
  counter := Nat.le_trans checks.counter (Nat.add_le_add_left few _)
  sources entry member := by
    rw [checks.same.sources]
    exact member
  planCache text libraryName found := by
    rw [checks.same.planCache]
    exact found

theorem Keeps.refl {session : Session} (inv : Inv session) : Keeps session session :=
  (Checks.refl inv 0).keeps (Nat.zero_le _)

/-- A query fails for a reason of its own, or is answered by a library compiled from it. -/
structure Executes (text : Text) (session : Session)
    (result : Except Failure Text × Session) : Prop where
  keeps : Keeps session result.2
  named : result.1 ≠ .error .unknownType
  compiled : ∀ libraryName, result.1 = .ok libraryName →
    ∃ source, (text, source) ∈ result.2.sources ∧ source.className = libraryName

/-- A name is made for a class. -/
theorem Grows.advance {session : Session} (bounded : session.mCounter + 1 < 2 ^ 32) :
    Grows session { session with mCounter := UniqueNameGenerator.next session.mCounter } := by
  rw [next_eq bounded]
  exact ⟨fun _ _ => id, fun _ => id, fun _ => id, Nat.le_succ _⟩

theorem Inv.advance {session : Session} (inv : Inv session)
    (bounded : session.mCounter + 1 < 2 ^ 32) :
    Inv { session with mCounter := UniqueNameGenerator.next session.mCounter } := by
  have grows := Grows.advance bounded
  refine inv.of_grows grows ⟨rfl, rfl, rfl⟩ ?_ inv.typeNames inv.tableSet
  intro entry member
  obtain ⟨signature, number, used, name⟩ := inv.types entry member
  exact ⟨signature, number, Nat.le_trans used grows.counter, name⟩

/-- A source whose class has a new name is written. -/
theorem Inv.writeSource {session : Session} (inv : Inv session) {text : Text}
    {source : Source} (closed : source.Closed session)
    (named : source.className = className session.mCounter)
    (fresh : ∀ entry ∈ session.sources, entry.2.className ≠ source.className) :
    Inv { session with sources := session.sources ++ [(text, source)] } := by
  refine ⟨inv.types, inv.typeNames, inv.tableSet, ?_, ?_, ?_⟩
  · intro entry member
    rcases List.mem_append.mp member with before | last
    · obtain ⟨others, number, used, name⟩ := inv.sources entry before
      exact ⟨⟨others.once, others.tables, others.stages⟩, number, used, name⟩
    · cases List.mem_singleton.mp last
      exact ⟨⟨closed.once, closed.tables, closed.stages⟩, _, Nat.le_refl _, named⟩
  · dsimp only
    rw [List.map_append]
    apply List.nodup_append.mpr
    refine ⟨inv.classNames, List.nodup_cons.mpr ⟨List.not_mem_nil, List.nodup_nil⟩, ?_⟩
    intro first before second last
    cases List.mem_singleton.mp last
    obtain ⟨entry, member, rfl⟩ := List.mem_map.mp before
    exact fresh entry member
  · intro entry member
    obtain ⟨other, present, name⟩ := inv.cached entry member
    exact ⟨other, List.mem_append_left _ present, name⟩

theorem constructFromSQLQuery_types (query : SQLQuery) :
    (constructFromSQLQuery query).types ≤ 2 := by
  rw [constructFromSQLQuery]
  cases query.whereClause_ <;> dsimp only <;> split <;> simp [PlanOp.types]

/-- The check does not ask for the name of a type. -/
theorem checkPlan_named (plan : PlanOp) (session : Session) :
    (checkPlan plan session).1 ≠ .error .unknownType := by
  induction plan with
  | FromTable_Op tableName =>
      rw [checkPlan]
      cases find session.contextTables tableName with
      | none => simp
      | some schema => cases schema <;> simp
  | Where_Op mChild condition induction =>
      rw [checkPlan]
      generalize checkPlan mChild session = result at induction
      obtain ⟨checked, next⟩ := result
      cases checked with
      | error failure => exact induction
      | ok child =>
          dsimp only
          cases modifyWhereExpression child.mOutputSchema.mColumns condition <;> simp
  | Map_Op mChild columns induction =>
      rw [checkPlan]
      generalize checkPlan mChild session = result at induction
      obtain ⟨checked, next⟩ := result
      cases checked with
      | error failure => exact induction
      | ok child =>
          dsimp only
          cases constructMapSchema child.mOutputSchema columns <;> simp

/-- A query is compiled to a source of its own if it passes the check. -/
theorem compileQuery_executes (text : Text) {session : Session} (inv : Inv session)
    (bounded : session.mCounter + 3 < 2 ^ 32) :
    Executes text session (compileQuery text session) ∧
      ((∃ libraryName, (compileQuery text session).1 = .ok libraryName) ↔
        ∃ query tInfo, SQL.parse text = some query ∧ Answerable session query tInfo) := by
  rw [compileQuery]
  cases parsed : SQL.parse text with
  | none =>
      refine ⟨⟨.refl inv, ?_, ?_⟩, ?_⟩ <;> simp
  | some query =>
      have few := constructFromSQLQuery_types query
      obtain ⟨checks, known⟩ :=
        checkPlan_checks (constructFromSQLQuery query) inv (by omega)
      have accepted := checkPlan_isOk query session
      have unnamed := checkPlan_named (constructFromSQLQuery query) session
      dsimp only
      generalize checkPlan (constructFromSQLQuery query) session = result
        at checks known accepted unnamed
      obtain ⟨checked, next⟩ := result
      have keeps := checks.keeps (Nat.le_succ_of_le few)
      cases checked with
      | error failure =>
          refine ⟨⟨keeps, fun same => unnamed ?_, ?_⟩, ?_⟩
          · cases same
            rfl
          · simp
          · simpa using accepted
      | ok plan =>
          have counter : next.mCounter ≤ session.mCounter + 2 :=
            Nat.le_trans checks.counter (Nat.add_le_add_left few _)
          have room : next.mCounter + 1 < 2 ^ 32 := by omega
          have grows := Grows.advance room
          have advanced := checks.inv.advance room
          obtain ⟨source, generated, named, closed⟩ :=
            advanced.codeClosed ((known plan rfl).grow grows)
              (className (UniqueNameGenerator.next next.mCounter))
          have written : Inv { next with
              mCounter := UniqueNameGenerator.next next.mCounter
              sources := next.sources ++ [(text, source)] } := by
            apply advanced.writeSource closed named
            intro entry member same
            obtain ⟨_, number, used, name⟩ := checks.inv.sources entry member
            have equal := className_injective (name.symm.trans (same.trans named))
            have more : next.mCounter + 1 ≤ next.mCounter := by
              rw [← next_eq room, ← equal]
              exact used
            omega
          dsimp only
          rw [generated]
          refine ⟨⟨⟨written, keeps.grows.trans ⟨grows.1, grows.2, grows.3, grows.4⟩, ?_, ?_,
            keeps.planCache⟩, ?_, ?_⟩, ?_⟩
          · dsimp only
            rw [next_eq room]
            omega
          · intro entry member
            exact List.mem_append_left _ (keeps.sources entry member)
          · simp
          · intro libraryName same
            cases same
            exact ⟨source, List.mem_append_right _ List.mem_cons_self, named⟩
          · simpa using accepted

/-- A library is put into the cache under the text that it was compiled from. -/
theorem Keeps.addToCache {session next : Session} (keeps : Keeps session next)
    {text libraryName : Text} {source : Source} (written : (text, source) ∈ next.sources)
    (named : source.className = libraryName) :
    Keeps session { next with
      planCache := if (find next.planCache text).isSome then next.planCache
        else insert text libraryName next.planCache } := by
  have inv := keeps.inv
  have grows := keeps.grows
  refine ⟨⟨inv.types, inv.typeNames, inv.tableSet, ?_, inv.classNames, ?_⟩,
    ⟨grows.1, grows.2, grows.3, grows.4⟩, keeps.counter, keeps.sources, ?_⟩
  · intro entry member
    obtain ⟨closed, rest⟩ := inv.sources entry member
    exact ⟨⟨closed.once, closed.tables, closed.stages⟩, rest⟩
  · dsimp only
    intro entry
    split
    · exact inv.cached entry
    · intro member
      rcases mem_insert.mp member with rfl | before
      · exact ⟨source, written, named⟩
      · exact inv.cached entry before
  · intro other otherName found
    have kept := keeps.planCache other otherName found
    dsimp only
    split
    · exact kept
    next absent =>
      rw [find_insert_of_ne]
      · exact kept
      · intro same
        rw [← same, kept] at absent
        exact absent rfl

theorem compileAndLoad_executes (environment : Environment) (text : Text) {session : Session}
    (inv : Inv session) (bounded : session.mCounter + 3 < 2 ^ 32) :
    Executes text session (compileAndLoad environment text session) := by
  have executes := (compileQuery_executes text inv bounded).1
  rw [compileAndLoad]
  generalize compileQuery text session = result at executes
  obtain ⟨compiled, next⟩ := result
  cases compiled with
  | error failure => exact executes
  | ok queryName =>
      obtain ⟨source, written, named⟩ := executes.compiled queryName rfl
      have cached := executes.keeps.addToCache written named
      dsimp only
      split
      · split
        · refine ⟨cached, by simp, ?_⟩
          intro libraryName same
          cases same
          exact ⟨source, written, named⟩
        · exact ⟨cached, by simp, by simp⟩
      · exact ⟨executes.keeps, by simp, by simp⟩

theorem execQuery_executes (environment : Environment) (text : Text) {session : Session}
    (inv : Inv session) (bounded : session.mCounter + 3 < 2 ^ 32) :
    Executes text session (execQuery environment text session) := by
  have compiles := compileAndLoad_executes environment text inv bounded
  rw [execQuery]
  cases found : find session.planCache text with
  | none => exact compiles
  | some cachedName =>
      cases environment.cached with
      | out_of_range => exact compiles
      | throws => exact ⟨.refl inv, by simp, by simp⟩
      | returns =>
          refine ⟨.refl inv, by simp, ?_⟩
          intro libraryName same
          cases same
          exact inv.cached _ (mem_of_find found)

/-- Tables are added, never replaced. -/
theorem createTable_keeps (tblName : Text) (tblInfo : Option TableInfo) {session : Session}
    (inv : Inv session) : Keeps session (createTable tblName tblInfo session) := by
  rw [createTable]
  split
  · exact .refl inv
  next absent =>
    have tables : ∀ name tInfo, find session.contextTables name = some tInfo →
        find (insert tblName tblInfo session.contextTables) name = some tInfo := by
      intro name tInfo found
      rw [find_insert_of_ne]
      · exact found
      · intro same
        rw [← same, found] at absent
        exact absent rfl
    have grows : Grows session
        { session with contextTables := insert tblName tblInfo session.contextTables } :=
      ⟨tables, fun _ => id, fun _ => id, Nat.le_refl _⟩
    refine ⟨⟨inv.types, inv.typeNames, ?_, ?_, inv.classNames, inv.cached⟩, grows,
      Nat.le_add_right _ _, fun _ => id, fun _ _ => id⟩
    · intro name member
      obtain ⟨tInfo, found, known⟩ := inv.tableSet name member
      exact ⟨tInfo, tables _ _ found, known⟩
    · intro entry member
      obtain ⟨closed, rest⟩ := inv.sources entry member
      exact ⟨closed.grow grows, rest⟩

theorem step_keeps (call : Call) {session : Session} (inv : Inv session)
    (bounded : session.mCounter + 3 < 2 ^ 32) : Keeps session (step session call) := by
  cases call with
  | createTable tblInfo => exact createTable_keeps tblInfo.mName (some tblInfo) inv
  | createNamedTable tblName => exact createTable_keeps tblName none inv
  | execQuery environment queryString =>
      exact (execQuery_executes environment queryString inv bounded).keeps

/-- What stays over some calls: the sources, the libraries in the cache and the schemas of the
tables. -/
structure Lasts (session next : Session) : Prop where
  sources : ∀ entry ∈ session.sources, entry ∈ next.sources
  planCache : ∀ text libraryName, find session.planCache text = some libraryName →
    find next.planCache text = some libraryName
  tables : ∀ name tInfo, find session.contextTables name = some tInfo →
    find next.contextTables name = some tInfo

theorem steps_keep (calls : List Call) {session : Session} (inv : Inv session)
    (bounded : session.mCounter + 3 * calls.length < 2 ^ 32) :
    Inv (calls.foldl step session) ∧ Lasts session (calls.foldl step session) ∧
      (calls.foldl step session).mCounter ≤ session.mCounter + 3 * calls.length := by
  induction calls generalizing session with
  | nil => exact ⟨inv, ⟨fun _ => id, fun _ _ => id, fun _ _ => id⟩, Nat.le_add_right _ _⟩
  | cons call calls induction =>
      rw [List.length_cons] at bounded
      have keeps := step_keeps call inv (by omega)
      have counter := keeps.counter
      obtain ⟨later, lasts, more⟩ := induction keeps.inv (by omega)
      rw [List.foldl_cons, List.length_cons]
      refine ⟨later, ⟨?_, ?_, ?_⟩, by omega⟩
      · intro entry member
        exact lasts.sources entry (keeps.sources entry member)
      · intro text libraryName found
        exact lasts.planCache text libraryName (keeps.planCache text libraryName found)
      · intro name tInfo found
        exact lasts.tables name tInfo (keeps.grows.tables name tInfo found)

/-- The text of a query. -/
def selectColumn : Text :=
  ['s', 'e', 'l', 'e', 'c', 't', ' ', 'a', ' ', 'f', 'r', 'o', 'm', ' ', 't']

/-- A table of one column, a query for the column and the same query from the cache. -/
def selectTwice : List Call :=
  [.createTable ⟨['t'], [⟨['a'], .Int_Type⟩], .Int_Type⟩,
    .execQuery ⟨.returns, true, .returns⟩ selectColumn,
    .execQuery ⟨.returns, true, .returns⟩ selectColumn]

end QueryCompiler

end PipeFabric
