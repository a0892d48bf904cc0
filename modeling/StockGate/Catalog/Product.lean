import StockGate.Document.Shape
import StockGate.Json.Printer

namespace StockGate

open Document

structure Money where
  currencyCode : String := ""
  units : Int64 := 0
  nanos : Int32 := 0
  deriving DecidableEq

structure StockLevel where
  schemaVersion : UInt32
  available : UInt32
  deriving DecidableEq

structure Product where
  id : String
  name : String := ""
  description : String := ""
  picture : String := ""
  price : Option Money := none
  categories : List String := []
  stock : Option StockLevel := none
  deriving DecidableEq

variable {α : Type} [Document α]

namespace Money

def fieldNames : List String :=
  ["currencyCode", "units", "nanos"]

def units? (v : α) : Option Int64 :=
  (within? Int64.minValue.toInt (Int64.maxValue.toInt + 1) v).map Int64.ofInt

def nanos? (v : α) : Option Int32 :=
  (within? Int32.minValue.toInt (Int32.maxValue.toInt + 1) v).map Int32.ofInt

def read? (v : α) : Option Money := do
  let r ← fields? fieldNames v
  return {
    currencyCode := ← r.withDefault "currencyCode" text? ""
    units := ← r.withDefault "units" units? 0
    nanos := ← r.withDefault "nanos" nanos? 0 }

def toJson (m : Money) : Json.Value :=
  .record [
    ("currencyCode", .text m.currencyCode),
    ("units", .int m.units.toInt),
    ("nanos", .int m.nanos.toInt)]

end Money

namespace StockLevel

def fieldNames : List String :=
  ["schemaVersion", "availableQuantity"]

def read? (v : α) : Option StockLevel := do
  let r ← fields? fieldNames v
  return {
    schemaVersion := ← r.required "schemaVersion" word32?
    available := ← r.required "availableQuantity" word32? }

def toJson (s : StockLevel) : Json.Value :=
  .record [
    ("schemaVersion", .nat s.schemaVersion.toNat),
    ("availableQuantity", .nat s.available.toNat)]

end StockLevel

namespace Product

def fieldNames : List String :=
  ["id", "name", "description", "picture", "priceUsd", "categories", "inventory"]

def read? (v : α) : Option Product := do
  let r ← fields? fieldNames v
  return {
    id := ← r.required "id" text?
    name := ← r.withDefault "name" text? ""
    description := ← r.withDefault "description" text? ""
    picture := ← r.withDefault "picture" text? ""
    price := ← r.withDefault "priceUsd" (maybe? Money.read?) none
    categories := ← r.withDefault "categories" (listOf? text?) []
    stock := ← r.withDefault "inventory" (maybe? StockLevel.read?) none }

def toJson (p : Product) : Json.Value :=
  .record [
    ("id", .text p.id),
    ("name", .text p.name),
    ("description", .text p.description),
    ("picture", .text p.picture),
    ("priceUsd", .orNull Money.toJson p.price),
    ("categories", .array (p.categories.map .text)),
    ("inventory", .orNull StockLevel.toJson p.stock)]

end Product

end StockGate
