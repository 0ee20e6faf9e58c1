import Mathlib.Data.List.TakeWhile
import RecordTables.Database.Catalog
import RecordTables.Proofs.Engine.Created
import RecordTables.Proofs.Engine.Selected
import RecordTables.Proofs.Text.ByteOrder

/-!
# What the catalog lists

The views of the catalog tell of a created table what its definition says: of each column its type, whether it takes NULL
and its rank in the key, and of each index its columns in their order.
-/

namespace RecordTables

open Engine (sameName sameName_iff sameName_self Store TableIndex IndexOrigin)
open Sql (Unbroken)

namespace Engine

/-! ## Names -/

/-- Only NUL is written with a zero byte. -/
theorem utf8EncodeChar_ne_zero {c : Char} (hc : c ≠ '\x00') {b : UInt8} (hb : b ∈ String.utf8EncodeChar c) : b ≠ 0 := by
  have hvalue : c.toNat ≠ 0 := by
    intro h
    exact hc (Char.ext (UInt32.toNat_inj.1 h))
  have hbyte : ∀ {n : Nat}, n < 256 → n ≠ 0 → UInt8.ofNat n ≠ 0 :=
    fun hlt hne heq => hne ((byte_inj hlt (by decide)).1 heq)
  -- Each byte of a longer form has its highest bit set.
  rcases utf8EncodeChar_cases c with ⟨hform, hbytes⟩ | ⟨hform, hbytes⟩ | ⟨hform, hbytes⟩ | ⟨hform, hbytes⟩ <;>
    simp only [hbytes, List.mem_cons, List.not_mem_nil, or_false] at hb
  · exact hb ▸ hbyte (by omega) hvalue
  · rcases hb with rfl | rfl <;> exact hbyte (by omega) (by omega)
  · rcases hb with rfl | rfl | rfl <;> exact hbyte (by omega) (by omega)
  · rcases hb with rfl | rfl | rfl | rfl <;> exact hbyte (by omega) (by omega)

theorem takeWhile_toUTF8 {s : String} (h : Unbroken s) : s.toUTF8.toList.takeWhile (· != 0) = s.toUTF8.toList := by
  rw [List.takeWhile_eq_self_iff]
  intro b hb
  rw [toList_toUTF8, List.mem_flatMap] at hb
  obtain ⟨c, hc, hb⟩ := hb
  have hne : b ≠ 0 := utf8EncodeChar_ne_zero (fun he => h (he ▸ hc)) hb
  simpa using hne

/-- A view is asked about the whole of a name. -/
theorem argumentName?_text {s : String} (h : Unbroken s) : Store.argumentName? (.text s.toUTF8) = some s := by
  have hread : String.fromUTF8? s.toByteArray = some s := by
    simp only [String.fromUTF8?, dif_pos s.isValidUTF8]
    rfl
  rw [Store.argumentName?, if_neg (by simp), show textBytes (.text s.toUTF8) = s.toUTF8 from rfl, takeWhile_toUTF8 h,
    toList_toArray]
  exact hread

end Engine

/-! ## Columns and indexes -/

namespace TableDefinition

variable (table : TableDefinition)

/-- The rank of a column in the key, counted from one; zero outside of it. -/
def rank (column : String) : Nat :=
  if column ∈ table.primaryKey then table.primaryKey.idxOf column + 1 else 0

/-- The columns as the catalog lists them. -/
def catalogColumns : List CatalogColumn :=
  table.columns.map fun p => ⟨p.1, p.2.type.keyword, !p.2.nullable, table.rank p.1⟩

end TableDefinition

/-- The parts of an index as the catalog lists them. -/
def Index.catalogParts (index : Index) : List CatalogPart :=
  index.columns.zipIdx.map fun p => ⟨p.2, some p.1⟩

/-- An index as the catalog lists it. -/
def Engine.TableIndex.listed (index : TableIndex) : CatalogIndex :=
  ⟨index.name, index.unique, Store.originText index.origin⟩

namespace Engine.Store

variable {store : Store} {table : TableDefinition} {indexes : List Index}

theorem findIdx?_place {names : List String} (hknown : ∀ c ∈ names, c ∈ table.columnNames) {column : String} :
    (names.map table.place).findIdx? (· == table.place column) =
      if column ∈ names then some (names.idxOf column) else none := by
  induction names with
  | nil => rfl
  | cons first rest ih =>
      rw [List.forall_mem_cons] at hknown
      have hplace : (table.place first == table.place column) = (first == column) := by
        rw [Bool.eq_iff_iff, beq_iff_eq, beq_iff_eq]
        exact List.idxOf_inj hknown.1
      rw [List.map_cons, List.findIdx?_cons, hplace, ih hknown.2]
      by_cases heq : first = column
      · simp [heq]
      · rw [beq_eq_false_iff_ne.2 heq, List.idxOf_cons_ne _ heq]
        simp only [Bool.false_eq_true, if_false, List.mem_cons, Ne.symm heq, false_or]
        split <;> rfl

/-- The rank of the catalog is that of the definition. -/
theorem keyRank_place (hkey : table.primaryKey.Nodup) (column : String) :
    (table.storedWith indexes).keyRank (table.place column) = table.rank column := by
  have hfind : (table.primaryKey.map table.place).findIdx? (· == table.place column) = _ :=
    findIdx?_place table.key_known
  have hwidth : (table.storedWith indexes).columns.length = table.columns.length := List.length_map ..
  have hlength := length_le_of_known table.key_known hkey
  unfold Table.keyRank
  rw [show (table.storedWith indexes).primaryKey = table.primaryKey.map table.place from rfl, hfind,
    TableDefinition.rank, hwidth]
  by_cases hmem : column ∈ table.primaryKey
  · have hlt := List.idxOf_lt_length_of_mem hmem
    simp only [if_pos hmem]
    omega
  · simp only [if_neg hmem]

end Engine.Store

/-! ## Rows of the catalog -/

namespace Catalog

open Engine.Store (textValue natValue boolValue maxColumns columnRows indexRows partRows length_le_of_known)
open Engine.PlannedSelection (cells)

variable {store : Store} {table : TableDefinition} {indexes : List Index}

/-- A row of a view with the cells that were asked for. -/
def rowOf (asked : List (String × Nat)) (row : List StoredValue) : Row :=
  Row.ofList ((asked.map Prod.fst).zip ((cells (asked.map Prod.snd) row).map Value.ofStored))

theorem ofStored_textValue (s : String) : Value.ofStored (textValue s) = .text s := Value.ofStored_toStored (.text s)

theorem toInt_boolValue (b : Bool) : ((Int64.ofNat (if b then 1 else 0)).toInt != 0) = b := by
  cases b <;> rfl

theorem columnOf_row (position : Nat) (name declared : String) (notNull : Bool) {rank : Nat} (h : rank < 2 ^ 63) :
    columnOf (rowOf [("name", 1), ("type", 2), ("notnull", 3), ("pk", 5)]
      [natValue position, textValue name, textValue declared, boolValue notNull, .null, natValue rank]) =
        .ok ⟨name, declared, notNull, rank⟩ := by
  show columnOf (Row.ofList (["name", "type", "notnull", "pk"].zip [Value.ofStored (textValue name),
    Value.ofStored (textValue declared), .int (Int64.ofNat (if notNull then 1 else 0)), .int (Int64.ofNat rank)])) = _
  rw [ofStored_textValue, ofStored_textValue]
  show Except.ok (⟨name, declared, (Int64.ofNat (if notNull then 1 else 0)).toInt != 0, (Int64.ofNat rank).toInt⟩ :
    CatalogColumn) = _
  rw [toInt_boolValue, Int64.toInt_ofNat_of_lt h]

theorem indexOf_row (position partiality : Nat) (name origin : String) (unique : Bool) :
    indexOf (rowOf [("name", 1), ("unique", 2), ("origin", 3)]
      [natValue position, textValue name, boolValue unique, textValue origin, natValue partiality]) =
        .ok ⟨name, unique, origin⟩ := by
  show indexOf (Row.ofList (["name", "unique", "origin"].zip [Value.ofStored (textValue name),
    .int (Int64.ofNat (if unique then 1 else 0)), Value.ofStored (textValue origin)])) = _
  rw [ofStored_textValue, ofStored_textValue]
  show Except.ok (⟨name, (Int64.ofNat (if unique then 1 else 0)).toInt != 0, origin⟩ : CatalogIndex) = _
  rw [toInt_boolValue]

theorem partOf_row {position : Nat} (column : Nat) (name : String) (h : position < 2 ^ 63) :
    partOf (rowOf [("seqno", 0), ("name", 2)] [natValue position, natValue column, textValue name]) =
      .ok ⟨position, some name⟩ := by
  show partOf (Row.ofList (["seqno", "name"].zip [.int (Int64.ofNat position), Value.ofStored (textValue name)])) = _
  rw [ofStored_textValue]
  show Except.ok (⟨(Int64.ofNat position).toInt, some name⟩ : CatalogPart) = _
  rw [Int64.toInt_ofNat_of_lt h]

theorem place_getElem {i : Nat} (h : i < table.columns.length) : table.place table.columns[i].1 = i := by
  have hlength : i < table.columnNames.length := by rwa [TableDefinition.columnNames, List.length_map]
  have hname : table.columnNames[i] = table.columns[i].1 := List.getElem_map ..
  rw [TableDefinition.place, ← hname]
  exact table.nodup_columnNames.idxOf_getElem i _

/-- The columns are listed as the definition has them. -/
theorem columnOf_columnRows {name : String} (hkey : table.primaryKey.Nodup) (hwidth : table.columns.length ≤ maxColumns)
    (h : store.table? name = some (table.storedWith indexes)) :
    ((store.columnRows name).map (rowOf [("name", 1), ("type", 2), ("notnull", 3), ("pk", 5)])).mapM columnOf =
      .ok table.catalogColumns := by
  have hrank : ∀ i, (table.storedWith indexes).keyRank i < 2 ^ 63 := by
    intro i
    have hcolumns : (table.storedWith indexes).columns.length = table.columns.length := List.length_map ..
    unfold maxColumns at hwidth
    unfold Engine.Table.keyRank
    split <;> omega
  have hread : ∀ p ∈ (table.storedWith indexes).columns.zipIdx, columnOf (rowOf [("name", 1), ("type", 2),
      ("notnull", 3), ("pk", 5)] [natValue p.2, textValue p.1.name, textValue p.1.type, boolValue p.1.notNull, .null,
        natValue ((table.storedWith indexes).keyRank p.2)]) =
          .ok ⟨p.1.name, p.1.type, p.1.notNull, (table.storedWith indexes).keyRank p.2⟩ :=
    fun p _ => columnOf_row p.2 p.1.name p.1.type p.1.notNull (hrank p.2)
  rw [columnRows, h]
  simp only [List.map_map]
  rw [List.mapM_map]
  refine (Engine.mapM_ok hread).trans (congrArg _ ?_)
  apply List.ext_getElem
  · simp [TableDefinition.catalogColumns, TableDefinition.storedWith]
  · intro i hi hi'
    have hbound : i < table.columns.length := by simpa [TableDefinition.catalogColumns] using hi'
    have hplace : (table.storedWith indexes).keyRank (table.place table.columns[i].1) = _ :=
      Engine.Store.keyRank_place hkey table.columns[i].1
    rw [place_getElem hbound] at hplace
    have hlength : i < (table.storedWith indexes).columns.length := by simpa using hi
    have hstored : (table.storedWith indexes).columns[i] = table.columns[i].2.stored table.columns[i].1 :=
      List.getElem_map ..
    simp only [TableDefinition.catalogColumns, List.getElem_map, List.getElem_zipIdx, Nat.zero_add, hplace, hstored,
      Column.stored]

/-- The indexes are listed as the engine has them. -/
theorem indexOf_indexRows {name : String} {t : Engine.Table} (h : store.table? name = some t) :
    ((store.indexRows name).map (rowOf [("name", 1), ("unique", 2), ("origin", 3)])).mapM indexOf =
      .ok (t.indexes.map TableIndex.listed) := by
  have hread : ∀ p ∈ t.indexes.zipIdx, indexOf (rowOf [("name", 1), ("unique", 2), ("origin", 3)]
      [natValue p.2, textValue p.1.name, boolValue p.1.unique, textValue (Engine.Store.originText p.1.origin), natValue 0]) =
        .ok p.1.listed :=
    fun p _ => indexOf_row p.2 0 p.1.name (Engine.Store.originText p.1.origin) p.1.unique
  rw [indexRows, h]
  simp only [List.map_map]
  rw [List.mapM_map]
  refine (Engine.mapM_ok hread).trans (congrArg _ ?_)
  have hlist : t.indexes.zipIdx.map (TableIndex.listed ∘ Prod.fst) = t.indexes.map TableIndex.listed := by
    rw [← List.map_map, List.zipIdx_map_fst]
  exact hlist

/-- The parts of an index are listed in the order of its columns. -/
theorem partOf_partRows {name : String} {t : Engine.Table} {index : Index} (hcolumns : t.columnNames = table.columnNames)
    (hknown : ∀ c ∈ index.columns, c ∈ table.columnNames) (hwidth : index.columns.length ≤ maxColumns)
    (h : store.index? name = some (t, table.storedIndex index)) :
    ((store.partRows name).map (rowOf [("seqno", 0), ("name", 2)])).mapM partOf = .ok index.catalogParts := by
  have hread : ∀ p ∈ index.columns.zipIdx, partOf (rowOf [("seqno", 0), ("name", 2)]
      [natValue p.2, natValue (table.place p.1), textValue (t.columnNames[table.place p.1]?.getD "")]) =
        .ok ⟨p.2, some p.1⟩ := by
    rintro ⟨c, i⟩ hp
    obtain ⟨hi, rfl⟩ := List.getElem?_eq_some_iff.1 (List.mk_mem_zipIdx_iff_getElem?.1 hp)
    have hname : t.columnNames[table.place index.columns[i]]? = some index.columns[i] := by
      rw [hcolumns]
      exact List.getElem?_idxOf (hknown _ (List.getElem_mem hi))
    unfold maxColumns at hwidth
    rw [hname]
    exact partOf_row _ _ (by omega)
  rw [partRows, h]
  simp only [TableDefinition.storedIndex, List.zipIdx_map, List.map_map]
  rw [List.mapM_map]
  exact Engine.mapM_ok hread

end Catalog

end RecordTables
