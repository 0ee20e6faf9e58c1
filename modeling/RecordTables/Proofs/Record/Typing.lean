import RecordTables.Record.Read

/-!
# Values of a type

`IsValue around s d` says that the datum `d` is how a value of the type that `s` describes presents itself, where
`around` is the innermost record around it.  There is one rule for each kind of value; a recursive type unrolls at
`enclosing`, so a derivation is as deep as the value.
-/

namespace RecordTables.Shape

/-- The values of a shape within the record `around`. -/
inductive IsValue : Shape → Shape → Datum → Prop where
  | bool {around : Shape} (b : Bool) : IsValue around .bool (.bool b)
  | int {around : Shape} {type : IntType} {n : Int} (hn : type.holds n = true) :
      IsValue around (.int type) (.int type n)
  | single {around : Shape} (x : Single) : IsValue around .single (.single x)
  | double {around : Shape} (x : Double) : IsValue around .double (.double x)
  | char {around : Shape} (c : Char) : IsValue around .char (.char c)
  | text {around : Shape} (s : String) : IsValue around .text (.text s)
  | label {around : Shape} {name : TypeName} (s : String) : IsValue around (.label name) (.text s)
  | bytes {around : Shape} {name : TypeName} (content : ByteArray) : IsValue around (.bytes name) (.bytes content)
  | unit {around : Shape} {name : TypeName} : IsValue around (.unit name) .unit
  | ignored {around : Shape} {name : TypeName} : IsValue around (.ignored name) .unit
  | absent {around content : Shape} : IsValue around (.option content) .absent
  | present {around content : Shape} {d : Datum} (h : IsValue around content d) :
      IsValue around (.option content) (.present d)
  | box {around content : Shape} {d : Datum} (h : IsValue around content d) : IsValue around (.box content) d
  | transparent {around content : Shape} {name : TypeName} {d : Datum} (h : IsValue around content d) :
      IsValue around (.transparent name content) d
  | newtype {around content : Shape} {name : TypeName} {d : Datum} (h : IsValue around content d) :
      IsValue around (.newtype name content) (.newtype d)
  /-- A value that its check has let pass. -/
  | checked {around content : Shape} {name : TypeName} {refusal : Datum → Option String} {d : Datum}
      (h : IsValue around content d) (hpass : refusal d = none) : IsValue around (.checked name content refusal) d
  | guarded {around content : Shape} {name : TypeName} {refusal : Datum → Option String} {d : Datum}
      (h : IsValue around content d) : IsValue around (.guarded name content refusal) (d.presented refusal)
  | list {around item : Shape} {items : List Datum} (h : ∀ d ∈ items, IsValue around item d) :
      IsValue around (.list item) (.list items)
  | array {around item : Shape} {items : List Datum} (h : ∀ d ∈ items, IsValue around item d) :
      IsValue around (.array item items.length) (.list items)
  | tuple {around : Shape} {shapes : List Shape} {items : List Datum} (hlength : items.length = shapes.length)
      (h : ∀ p ∈ shapes.zip items, IsValue around p.1 p.2) : IsValue around (.tuple shapes) (.list items)
  | tupleStruct {around : Shape} {name : TypeName} {shapes : List Shape} {items : List Datum}
      (hlength : items.length = shapes.length) (h : ∀ p ∈ shapes.zip items, IsValue around p.1 p.2) :
      IsValue around (.tupleStruct name shapes) (.list items)
  /-- A map presents its entries in the order of their keys, each key once. -/
  | map {around key value : Shape} {entries : List (Datum × Datum)}
      (hkey : ∀ e ∈ entries, IsValue around key e.1) (hvalue : ∀ e ∈ entries, IsValue around value e.2)
      (hsorted : entries.Pairwise fun a b => a.1.keyBefore b.1 = true) : IsValue around (.map key value) (.map entries)
  | pairs {around key value : Shape} {name : TypeName} {entries : List (Datum × Datum)}
      (hkey : ∀ e ∈ entries, IsValue around key e.1) (hvalue : ∀ e ∈ entries, IsValue around value e.2) :
      IsValue around (.pairs name key value) (.map (entries.map fun e => (.list [e.1, e.1], e.2)))
  | record {around : Shape} {name : TypeName} {strict : Bool} {fields : List (Field × Shape)}
      {values : List (Field × Datum)} (hfields : values.map Prod.fst = fields.map Prod.fst)
      (h : ∀ p ∈ fields.zip values, IsValue (.record name strict fields) p.1.2 p.2.2) :
      IsValue around (.record name strict fields) (.record (presentedFields values))
  | flattened {around : Shape} {name : TypeName} {fields : List (Field × Shape)} {values : List (Field × Datum)}
      (hfields : values.map Prod.fst = fields.map Prod.fst)
      (h : ∀ p ∈ fields.zip values, IsValue around p.1.2 p.2.2) :
      IsValue around (.flattened name fields) (.map ((presentedFields values).map fun p => (.text p.1, p.2)))
  | enclosing {name other : TypeName} {strict : Bool} {fields : List (Field × Shape)} {d : Datum}
      (h : IsValue (.record name strict fields) (.record name strict fields) d) :
      IsValue (.record name strict fields) (.enclosing other) d
  | choice {around : Shape} {name : TypeName} {variants : List (String × Payload)} {variant : String}
      {payload : Payload} {d : Datum} (hvariant : (variant, payload) ∈ variants)
      (h : IsValue around (payload.shape name) d) : IsValue around (.choice name variants) (payload.datum variant d)
  | adjacentUnit {around : Shape} {name : TypeName} {tag content : String} {variants : List (String × Payload)}
      {variant : String} (hvariant : (variant, .unit) ∈ variants) :
      IsValue around (.adjacent name tag content variants) (adjacentRecord tag content variant none)
  | adjacentContent {around : Shape} {name : TypeName} {tag content : String} {variants : List (String × Payload)}
      {variant : String} {payload : Payload} {d : Datum} (hvariant : (variant, payload) ∈ variants)
      (hpayload : payload ≠ .unit) (h : IsValue around (payload.shape name) d) :
      IsValue around (.adjacent name tag content variants) (adjacentRecord tag content variant (some d))
  | taggedUnit {around : Shape} {name : TypeName} {tag : String} {variants : List (String × Payload)}
      {variant : String} (hvariant : (variant, .unit) ∈ variants) :
      IsValue around (.tagged name tag variants) (.record [(tag, .text variant)])
  | taggedFields {around : Shape} {name : TypeName} {tag : String} {variants : List (String × Payload)}
      {variant : String} {fields : List (Field × Shape)} {values : List (Field × Datum)}
      (hvariant : (variant, .fields fields) ∈ variants) (hfields : values.map Prod.fst = fields.map Prod.fst)
      (h : ∀ p ∈ fields.zip values, IsValue around p.1.2 p.2.2) :
      IsValue around (.tagged name tag variants) (.record ((tag, .text variant) :: presentedFields values))
  | untaggedInt {around : Shape} {name : TypeName} {alternatives : List Scalar} {n : Int}
      (hscalar : .int64 ∈ alternatives) (hn : IntType.i64.holds n = true) :
      IsValue around (.untagged name alternatives) (.int .i64 n)
  | untaggedDouble {around : Shape} {name : TypeName} {alternatives : List Scalar} (hscalar : .double ∈ alternatives)
      (x : Double) : IsValue around (.untagged name alternatives) (.double x)
  | untaggedText {around : Shape} {name : TypeName} {alternatives : List Scalar} (hscalar : .text ∈ alternatives)
      (s : String) : IsValue around (.untagged name alternatives) (.text s)
  | anyNull {around : Shape} {name : TypeName} : IsValue around (.anything name) .unit
  | anyBool {around : Shape} {name : TypeName} (b : Bool) : IsValue around (.anything name) (.bool b)
  /-- A whole number of the most general type is signed only if it is negative. -/
  | anyInt {around : Shape} {name : TypeName} {n : Int}
      (hn : (if n < 0 then IntType.i64 else IntType.u64).holds n = true) :
      IsValue around (.anything name) (.int (if n < 0 then .i64 else .u64) n)
  | anyDouble {around : Shape} {name : TypeName} {x : Double} (hx : x.isFinite = true) :
      IsValue around (.anything name) (.double x)
  | anyText {around : Shape} {name : TypeName} (s : String) : IsValue around (.anything name) (.text s)
  | anyList {around : Shape} {name : TypeName} {items : List Datum}
      (h : ∀ d ∈ items, IsValue around (.anything name) d) : IsValue around (.anything name) (.list items)
  | anyMap {around : Shape} {name : TypeName} {entries : List (Datum × Datum)}
      (hkey : ∀ e ∈ entries, ∃ s, e.1 = .text s) (hvalue : ∀ e ∈ entries, IsValue around (.anything name) e.2)
      (hsorted : entries.Pairwise fun a b => a.1.keyBefore b.1 = true) :
      IsValue around (.anything name) (.map entries)

end RecordTables.Shape
