import VynkorPlugins.Base.Async
import VynkorPlugins.Base.Table
import VynkorPlugins.Base.Transaction

/-!
# The migration of a file

How the `vector-db` plugin brings a file of version 0 to the current schema (`migrate.rs`, `codec.rs`), beside
the backup and the temporary file that it writes first. The process may stop before and after any of its
effects, and starts the migration again.
-/

namespace VectorDb.Migrate

/-- The bits of an `f32`. -/
abbrev F32 := UInt32

abbrev Blob := List UInt8

/-! ## The codec -/

def to_le_bytes (x : F32) : Blob :=
  [x.toNat, x.toNat / 2 ^ 8, x.toNat / 2 ^ 16, x.toNat / 2 ^ 24].map UInt8.ofNat

def from_le_bytes (a b c d : UInt8) : F32 :=
  UInt32.ofNat (a.toNat + b.toNat * 2 ^ 8 + c.toNat * 2 ^ 16 + d.toNat * 2 ^ 24)

def encode (v : List F32) : Blob :=
  v.flatMap to_le_bytes

def chunks : Blob → List F32
  | a :: b :: c :: d :: bytes => from_le_bytes a b c d :: chunks bytes
  | _ => []

def decode (bytes : Blob) : Except String (List F32) :=
  if bytes.length % 4 ≠ 0 then
    .error ("vector blob length " ++ toString bytes.length ++ " is not a multiple of 4")
  else .ok (chunks bytes)

/-! ## Files -/

/-- A value of the column `vector`: a JSON text in version 0, and a BLOB since. -/
inductive Cell where
  | text (json : String)
  | blob (bytes : Blob)
deriving DecidableEq

structure Row where
  collection : String
  id : String
  text : String
  vector : Cell
  metadata : String
  updated_at : Int64
deriving DecidableEq

/-- The primary key. -/
def Row.key (r : Row) : String × String :=
  (r.collection, r.id)

/-- Rows under their rowids, which are positive if SQLite has chosen them. -/
abbrev Vectors := Table Int Row

structure Collection where
  dim : Nat
  /-- There is none before the column was added. -/
  model : Option String
  created_at : Int64

structure Collections where
  has_model : Bool
  rows : Table String Collection

/-- What is stored in a database file. -/
structure Database where
  user_version : Int
  vectors : Option Vectors
  collections : Option Collections

/-- A file beside the database: one that SQLite opens and finds in order, or any other. -/
inductive File where
  | sqlite (content : Database)
  | damaged

structure World where
  db : Database
  bak : Option File
  tmp : Option File

def SCHEMA_VERSION : Int := 1

/-- `create table if not exists vectors` -/
def VECTORS_DDL (db : Database) : Database :=
  { db with vectors := some (db.vectors.getD ∅) }

/-- `create table if not exists collections` -/
def COLLECTIONS_DDL (db : Database) : Database :=
  { db with collections := some (db.collections.getD { has_model := true, rows := ∅ }) }

/-! ## The copy of the rows -/

/-- The rows that were copied, and the counts of the report. -/
structure Copy where
  vectors_v1 : Vectors
  migrated_rows : Nat
  skipped_rows : Nat

/-- The number of the next row of a table. -/
def next_rowid (t : Vectors) : Int :=
  match t.toList.getLast? with
  | some row => row.1 + 1
  | none => 1

/-- `insert into vectors_v1` -/
def insert_v1 (t : Vectors) (row : Row) : Except String Vectors :=
  if t.toList.any fun r => r.2.key = row.key then
    .error "UNIQUE constraint failed: vectors_v1.collection, vectors_v1.id"
  else .ok (t.insert (next_rowid t) row)

section

variable (from_str : String → Except String (List F32))

/-- A row of the old table. A column with a value of another type makes the process panic. -/
def copy_row (c : Copy) (row : Row) : Except String Copy :=
  match row.vector with
  | .blob _ => .error "mismatched types; Rust type `alloc::string::String` (as SQL type `TEXT`)"
  | .text json =>
    match from_str json with
    | .ok (x :: v) =>
      match insert_v1 c.vectors_v1 { row with vector := .blob (encode (x :: v)) } with
      | .ok vectors_v1 => .ok { c with vectors_v1, migrated_rows := c.migrated_rows + 1 }
      | .error e => .error e
    | _ => .ok { c with skipped_rows := c.skipped_rows + 1 }

/-- `where rowid > ?1 order by rowid limit 1000` -/
def page (t : Vectors) (last_rowid : Int) : List (Int × Row) :=
  (t.toList.filter fun r => last_rowid < r.1).take 1000

/-- The loop over the pages, until one is empty. -/
def copy_rows (t : Vectors) : Nat → Int → Copy → Except String Copy
  | 0, _, _ => .error "interrupted"
  | fuel + 1, last_rowid, c =>
    match (page t last_rowid).getLast? with
    | none => .ok c
    | some row =>
      match (page t last_rowid).foldlM (fun c r => copy_row from_str c r.2) c with
      | .ok c => copy_rows t fuel row.1 c
      | .error e => .error e

/-- `alter table collections add column model` -/
def add_model (c : Collections) : Collections :=
  if c.has_model then c
  else
    { has_model := true
      rows := c.rows.map fun _ collection => { collection with model := some "" } }

/-- The statements of the transaction. -/
def migrate : Tx Database (Nat × Nat) := do
  match (← get).vectors with
  | none => throw "no such table: vectors"
  | some t =>
    match copy_rows from_str t (t.size + 1) 0 ⟨∅, 0, 0⟩ with
    | .error e => throw e
    | .ok c =>
      modify fun db => { db with vectors := some c.vectors_v1 }
      modify COLLECTIONS_DDL
      modify fun db => { db with collections := db.collections.map add_model }
      modify fun db => { db with user_version := SCHEMA_VERSION }
      return (c.migrated_rows, c.skipped_rows)

end

/-! ## The migration -/

inductive Eff where
  | user_version
  /-- Whether there is a table `vectors`. -/
  | has_vectors
  | source_rows
  | bak_exists
  | backup_is_valid (expected_rows : Nat)
  | remove_tmp
  | vacuum_into_tmp
  | rename_tmp
  | ddl (apply : Database → Database)
  | set_user_version
  | transaction

abbrev Eff.Answer : Eff → Type
  | .user_version => Except String Int
  | .has_vectors => Except String Bool
  | .source_rows => Except String Nat
  | .bak_exists | .backup_is_valid _ => Bool
  | .remove_tmp => Unit
  | .vacuum_into_tmp | .rename_tmp | .ddl _ | .set_user_version => Except String Unit
  | .transaction => Except String (Nat × Nat)

abbrev Act (α : Type) := Async Eff Eff.Answer α

def await (e : Eff) : Act e.Answer := Async.perform e

structure MigrateReport where
  from_version : Int
  migrated_rows : Nat
  skipped_rows : Nat
  /-- Whether a backup was written. -/
  backup : Bool

/-- The statements of a fresh file, one after the other. -/
def init_schema (report : MigrateReport) : List (Database → Database) → Act (Except String MigrateReport)
  | [] => do
    match ← await .set_user_version with
    | .error e => return .error e
    | .ok () => return .ok report
  | apply :: rest => do
    match ← await (.ddl apply) with
    | .error e => return .error ("failed to init schema: " ++ e)
    | .ok () => init_schema report rest

/-- The backup is written to the temporary file and renamed. -/
def write_backup : Act (Except String Unit) := do
  await .remove_tmp
  match ← await .vacuum_into_tmp with
  | .error e => return .error ("failed to back up database: " ++ e)
  | .ok () =>
    match ← await .rename_tmp with
    | .error e => return .error ("failed to publish backup: " ++ e)
    | .ok () => return .ok ()

/-- Whether the backup that is there passes its check. -/
def keeps_backup (source_rows : Nat) : Act Bool := do
  match ← await .bak_exists with
  | false => return false
  | true => await (.backup_is_valid source_rows)

def copy_into_v1 (report : MigrateReport) : Act (Except String MigrateReport) := do
  match ← await .transaction with
  | .error e => return .error e
  | .ok (migrated_rows, skipped_rows) => return .ok { report with migrated_rows, skipped_rows }

def run : Act (Except String MigrateReport) := do
  match ← await .user_version with
  | .error e => return .error ("failed to read user_version: " ++ e)
  | .ok version =>
    let report : MigrateReport :=
      { from_version := version, migrated_rows := 0, skipped_rows := 0, backup := false }
    if SCHEMA_VERSION ≤ version then return .ok report
    else
      match ← await .has_vectors with
      | .error e => return .error e
      | .ok false =>
        -- The index on the collections of the rows holds no data of its own.
        init_schema report [COLLECTIONS_DDL, VECTORS_DDL, id]
      | .ok true =>
        match ← await .source_rows with
        | .error e => return .error e
        | .ok source_rows =>
          match ← keeps_backup source_rows with
          | true => copy_into_v1 report
          | false =>
            match ← write_backup with
            | .error e => return .error e
            | .ok () => copy_into_v1 { report with backup := true }

/-! ## Effects -/

/-- The rows of a table, in the order of their numbers. -/
def rowsOf (t : Vectors) : List Row :=
  t.toList.map Prod.snd

/-- A copy of the whole database. The rows of a table may have other numbers in it. -/
structure Copies (db copy : Database) : Prop where
  user_version : copy.user_version = db.user_version
  vectors : copy.vectors.map rowsOf = db.vectors.map rowsOf
  collections : copy.collections = db.collections

/-- The file is in order and has that many vectors. -/
def passes (f : Option File) (expected_rows : Nat) : Prop :=
  ∃ content t, f = some (.sqlite content) ∧ content.vectors = some t ∧ t.size = expected_rows

/-- What is read is answered, unless reading fails. -/
def Reads {α : Type} (w : World) (a : α) (r : Except String α) (w' : World) : Prop :=
  w' = w ∧ (r = .ok a ∨ ∃ e, r = .error e)

/-- A statement is done and committed, or it fails and changes nothing. -/
def Commits (w : World) (apply : Database → Database) (r : Except String Unit) (w' : World) : Prop :=
  r = .ok () ∧ w' = { w with db := apply w.db } ∨ (∃ e, r = .error e) ∧ w' = w

section

variable (from_str : String → Except String (List F32))

/-- How an effect is answered. -/
def Handle (w : World) : (e : Eff) → e.Answer → World → Prop
  | .user_version, r, w' => Reads w w.db.user_version r w'
  | .has_vectors, r, w' => Reads w w.db.vectors.isSome r w'
  | .source_rows, r, w' => ∃ t, w.db.vectors = some t ∧ Reads w t.size r w'
  | .bak_exists, r, w' => w' = w ∧ (r = true → w.bak.isSome)
  | .backup_is_valid expected_rows, r, w' => w' = w ∧ (r = true → passes w.bak expected_rows)
  | .remove_tmp, _, w' => w' = w ∨ w' = { w with tmp := none }
  | .vacuum_into_tmp, r, w' =>
    (r = .ok () ∧ w.tmp = none ∧ ∃ copy, Copies w.db copy ∧ w' = { w with tmp := some (.sqlite copy) }) ∨
      (∃ e, r = .error e) ∧ (w' = w ∨ w' = { w with tmp := some .damaged })
  | .rename_tmp, r, w' =>
    (r = .ok () ∧ ∃ f, w.tmp = some f ∧ w' = { w with bak := some f, tmp := none }) ∨
      (∃ e, r = .error e) ∧ w' = w
  | .ddl apply, r, w' => Commits w apply r w'
  | .set_user_version, r, w' => Commits w (fun db => { db with user_version := SCHEMA_VERSION }) r w'
  | .transaction, r, w' =>
    ∃ fault, w' = { w with db := w'.db } ∧
      (Db.transaction fault (migrate from_str)).exec w.db = (r, w'.db)

/-- The process, and the files that it works on. -/
structure State where
  task : Act (Except String MigrateReport)
  world : World

inductive Label where
  | act (e : Eff) (r : e.Answer)
  | restart

/-- A process that stops while it writes the temporary file leaves a part of it. -/
def Left (s : State) (w : World) : Prop :=
  w = s.world ∨ (∃ k, s.task = .call .vacuum_into_tmp k) ∧ w = { s.world with tmp := some .damaged }

inductive Step : State → Label → State → Prop
  | act {s : State} {e : Eff} {k : e.Answer → Act (Except String MigrateReport)} {r : e.Answer} {w : World}
      (htask : s.task = .call e k) (hw : Handle from_str s.world e r w) :
      Step s (.act e r) { task := k r, world := w }
  | restart {s : State} {w : World} (hw : Left s w) : Step s .restart { task := run, world := w }

end

/-! ## What the migration owes -/

section

variable (from_str : String → Except String (List F32))

/-- The JSON text of the row is an array with an item. -/
def Parses (row : Row) : Prop :=
  ∃ json v, row.vector = .text json ∧ from_str json = .ok v ∧ v ≠ []

/-- The vector of the row is stored in the new form, and nothing else has changed. -/
structure Converted (row row' : Row) : Prop where
  others : row' = { row with vector := row'.vector }
  vector : ∃ json v bytes, row.vector = .text json ∧ from_str json = .ok v ∧ v ≠ [] ∧
    row'.vector = .blob bytes ∧ decode bytes = .ok v

open Classical in
/-- The table holds exactly the rows that parse, in the new form. -/
def Migrated (t : Vectors) (db : Database) : Prop :=
  ∃ t', db.vectors = some t' ∧
    List.Forall₂ (Converted from_str) ((rowsOf t).filter fun row => Parses from_str row) (rowsOf t')

/-- The backup holds exactly the rows of the table. -/
def Backed (t : Vectors) (bak : Option File) : Prop :=
  ∃ content t', bak = some (.sqlite content) ∧ content.vectors = some t' ∧ (rowsOf t').Perm (rowsOf t)

/-- Nothing is lost of a file of version 0. -/
structure Kept (t : Vectors) (s : State) : Prop where
  version : s.world.db.user_version = 0 ∨ s.world.db.user_version = SCHEMA_VERSION
  unmigrated : s.world.db.user_version = 0 → s.world.db.vectors = some t
  migrated : s.world.db.user_version = SCHEMA_VERSION → Migrated from_str t s.world.db
  backed : s.world.db.user_version = SCHEMA_VERSION → Backed t s.world.bak
  succeeded : ∀ report, s.task = .done (.ok report) → s.world.db.user_version = SCHEMA_VERSION

/-- What the migration relies on of a file of version 0 and the backup beside it. -/
structure Sound (t : Vectors) (bak : Option File) : Prop where
  /-- The rows that parse have positive numbers. -/
  positive : ∀ (n : Int) (row : Row), t[n]? = some row → Parses from_str row → 0 < n
  /-- A backup with as many rows is one of these rows. -/
  backup : passes bak t.size → Backed t bak

end

end VectorDb.Migrate
