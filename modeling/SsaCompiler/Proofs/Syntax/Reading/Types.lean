import SsaCompiler.Proofs.Json.Variation
import SsaCompiler.Syntax.Decoding
import SsaCompiler.Syntax.Encoding
import Mathlib.Algebra.Group.Nat.Defs
import Mathlib.Algebra.Group.Int.Defs

/-!
# Reading spans, literals and types

However a span, a literal or a type is written, it is read as what it is (`FileSpan.ofJson?_variation`,
`Literal.ofJson?_variation`, `TypeExpr.ofJson?_variation`), if its numbers fit the format. Types nest; the
levels of their JSON form bound the recursion of the reader (`TypeExpr.Readable`).
-/

namespace SsaCompiler

open Json (Shape Variation Found reads)
open Json.Variation (readRecord readPayload readVariant)
variable {root : Shape} {json : Json} {types : List TypeExpr}

/-! ## Numbers that fit -/

/-- The offsets of a span and its file take thirty-two bits. -/
structure FileSpan.Fits (location : FileSpan) : Prop where
  file : location.file.index < 2 ^ 32
  start : location.span.start < 2 ^ 32
  stop : location.span.stop < 2 ^ 32

/-- The width of a literal takes eight bits. -/
def WidthFits (bits : Option Nat) : Prop := ∀ width ∈ bits, width < 2 ^ 8

/-- An integer takes sixty-four bits and a float is finite. -/
def Literal.Fits : Literal → Prop
  | .int value bits => (-2 ^ 63 ≤ value ∧ value < 2 ^ 63) ∧ WidthFits bits
  | .float value bits => value.isFinite = true ∧ WidthFits bits
  | .bool _ | .unit | .cString _ => True

mutual
def TypeExpr.Fits : TypeExpr → Prop
  | .named _ span => span.Fits
  | .pointer pointee span => pointee.Fits ∧ span.Fits
  | .function params none _ span => TypeExpr.AllFit params ∧ span.Fits
  | .function params (some result) _ span => TypeExpr.AllFit params ∧ result.Fits ∧ span.Fits

def TypeExpr.AllFit : List TypeExpr → Prop
  | [] => True
  | type :: rest => type.Fits ∧ TypeExpr.AllFit rest
end

/-! ## Shapes -/

def FileSpan.shape : Shape :=
  .record [("file", none, .scalar), ("span", none, .record [("start", none, .scalar), ("end", none, .scalar)])]

def Literal.shape : Shape :=
  .variant [("Int", some (.record [("value", none, .scalar), ("bits", some .null, .scalar)])),
    ("Float", some (.record [("value", none, .scalar), ("bits", some .null, .scalar)])),
    ("Bool", some .scalar), ("Unit", none), ("CString", some .scalar)]

def TypeExpr.shape : Shape :=
  .variant [("Named", some (.record [("name", none, .scalar), ("span", none, FileSpan.shape)])),
    ("Pointer", some (.record [("pointee", none, .recursive), ("span", none, FileSpan.shape)])),
    ("Function", some (.record [("params", none, .list .recursive), ("ret", some .null, .recursive),
      ("varargs", some (.bool false), .scalar), ("span", none, FileSpan.shape)]))]

/-- Another way to write a value, types being the part of the format that nests. -/
def Varies (shape : Shape) (json json' : Json) : Prop := Variation TypeExpr.shape shape json json'

/-! ## Numbers and spans -/

namespace Json

theorem unsigned?_nat {bits n : Nat} (h : n < 2 ^ bits) : unsigned? bits (.nat n) = some n := by
  have hlt : (n : Int) < (Nat.pow 2 bits : Int) := by exact_mod_cast h
  simp only [unsigned?, nat, int?, Number.toInt?]
  rw [if_pos ⟨Int.natCast_nonneg n, hlt⟩, Int.toNat_natCast]

theorem int64?_int {value : Int} (h : -2 ^ 63 ≤ value ∧ value < 2 ^ 63) : int64? (.int value) = some value := by
  simp only [int64?, int, int?, Number.toInt?]
  rw [if_pos (by simpa using h)]

variable {depth : Nat} {record : Record} {name : String} {α : Type}

theorem Found.scalar {value : Json} (h : Found root depth record (name, none, .scalar) value)
    {decode : Json → Option α} : record.required name decode = decode value := by
  cases h with
  | written get varies =>
    rw [Record.required, get, varies.eq_scalar]
    rfl
  | omitted _ _ default => cases default

theorem Found.width {bits : Option Nat} (h : Found root depth record (name, some .null, .scalar) (Json.optional nat bits))
    (hb : WidthFits bits) : record.withDefault name (nullable? (unsigned? 8)) none = some bits := by
  refine h.nullable rfl (fun _ hnull => by cases hnull) fun width hw json hv _ => ?_
  rw [hv.eq_scalar]
  exact unsigned?_nat (hb width hw)

end Json

theorem FileSpan.ofJson?_variation {location : FileSpan} (hf : location.Fits)
    (h : Variation root FileSpan.shape location.toJson json) : FileSpan.ofJson? json = some location := by
  refine readRecord h fun outer ⟨hfile, hspan⟩ =>
    reads (hfile.scalar.trans (Json.unsigned?_nat hf.file)) ?_
  cases hspan with
  | omitted _ _ default => cases default
  | written get varies _ =>
    obtain ⟨inner, hinner, hfound⟩ := varies.record? rfl (by decide)
    obtain ⟨hstart, hstop⟩ := Json.allFound_of_forall₂ hfound
    exact reads (reads get hinner) <| reads (hstart.scalar.trans (Json.unsigned?_nat hf.start)) <|
      reads (hstop.scalar.trans (Json.unsigned?_nat hf.stop)) rfl

/-! ## Literals -/

theorem Literal.ofJson?_variation {value : Literal} (hf : value.Fits)
    (h : Variation root Literal.shape (value.toJson Json.float) json) : Literal.ofJson? json = some value := by
  cases value with
  | int value bits =>
    exact readVariant h rfl (fun _ => rfl) fun _ _ ⟨hvalue, hbits⟩ =>
      reads (hvalue.scalar.trans (Json.int64?_int hf.1)) <| reads (hbits.width hf.2) rfl
  | float value bits =>
    have hread : Json.binary64? (Json.float value) = some value := by
      rw [Json.float, if_pos hf.1]
      rfl
    exact readVariant h rfl (fun _ => rfl) fun _ _ ⟨hvalue, hbits⟩ =>
      reads (hvalue.scalar.trans hread) <| reads (hbits.width hf.2) rfl
  | bool value => exact readPayload h rfl fun _ hpayload _ => by rw [hpayload.eq_scalar]; rfl
  | unit =>
    cases h with
    | same => rfl
    | bare => rfl
  | cString text => exact readPayload h rfl fun _ hpayload _ => by rw [hpayload.eq_scalar]; rfl

theorem Literal.toJson_ne_null (value : Literal) : value.toJson Json.float ≠ .null := by
  cases value <;> exact fun h => by cases h

/-! ## Types -/

theorem TypeExpr.allFit_iff : AllFit types ↔ ∀ type ∈ types, type.Fits := by
  induction types with
  | nil => exact iff_of_true trivial (by simp)
  | cons type rest ih => exact (and_congr_right' ih).trans List.forall_mem_cons.symm

theorem TypeExpr.listToJson_eq : listToJson types = types.map toJson := by
  induction types with
  | nil => rfl
  | cons type rest ih => exact congrArg (type.toJson :: ·) ih

theorem TypeExpr.toJson_function {params : List TypeExpr} {result : Option TypeExpr} {varargs : Bool} {span : FileSpan} :
    (TypeExpr.function params result varargs span).toJson = .variantRecord "Function"
      [("params", .list toJson params), ("ret", .optional toJson result), ("varargs", .bool varargs),
        ("span", span.toJson)] := by
  rw [Json.list, ← listToJson_eq]
  cases result <;> rfl

theorem TypeExpr.toJson_ne_null (type : TypeExpr) : type.toJson ≠ .null := by
  cases type with
  | named | pointer => exact fun h => by cases h
  | function =>
    rw [toJson_function]
    exact fun h => by cases h

theorem Json.Variation.unfold {json' : Json} (h : Variation root .recursive json json') :
    Variation root root json json' := by
  cases h with
  | same => exact .same _ _
  | recursive varies => exact varies

namespace TypeExpr

/-- A type is read with as much fuel as it has levels, however it is written. -/
def Readable (type : TypeExpr) : Prop :=
  ∀ {json : Json} {fuel : Nat}, type.Fits → json.depth ≤ fuel → Varies .recursive type.toJson json →
    read? fuel json = some type

variable {name : String}

theorem exists_fuel {cases : List (String × Option Shape)} {payload : Json} {fuel : Nat}
    (h : Varies (.variant cases) (.object [(name, payload)]) json) (hfuel : json.depth ≤ fuel) :
    ∃ less, fuel = less + 1 := by
  refine ⟨fuel - 1, ?_⟩
  have hpos : 0 < json.depth := by cases h <;> simp [Json.depth]
  omega

variable {span : FileSpan}

theorem readable_named : (TypeExpr.named name span).Readable := by
  intro json fuel hf hfuel h
  have h := h.unfold
  obtain ⟨fuel, rfl⟩ := exists_fuel h hfuel
  refine readPayload h rfl fun _ hpayload hinside => hpayload.readRecord fun _ ⟨hname, hspan⟩ => ?_
  exact reads hname.scalar <| reads (hspan.required fun _ hv _ => FileSpan.ofJson?_variation hf hv) rfl

theorem readable_pointer {pointee : TypeExpr} (hpointee : pointee.Readable) :
    (TypeExpr.pointer pointee span).Readable := by
  intro json fuel hf hfuel h
  have h := h.unfold
  obtain ⟨fuel, rfl⟩ := exists_fuel h hfuel
  refine readPayload h rfl fun _ hpayload hinside => hpayload.readRecord fun _ ⟨htype, hspan⟩ => ?_
  exact reads (htype.required fun _ hv hi => hpointee hf.1 (by omega) hv) <|
    reads (hspan.required fun _ hv _ => FileSpan.ofJson?_variation hf.2 hv) rfl

theorem readable_function {params : List TypeExpr} {result : Option TypeExpr}
    (hparams : ∀ type ∈ params, type.Readable) (hresult : ∀ type ∈ result, type.Readable) {varargs : Bool} :
    (TypeExpr.function params result varargs span).Readable := by
  intro json fuel hf hfuel h
  have hfits : (∀ type ∈ params, type.Fits) ∧ (∀ type ∈ result, type.Fits) ∧ span.Fits := by
    cases result with
    | none => exact ⟨allFit_iff.mp hf.1, by simp, hf.2⟩
    | some result => exact ⟨allFit_iff.mp hf.1, by simpa using hf.2.1, hf.2.2⟩
  have h := h.unfold
  rw [toJson_function] at h
  obtain ⟨fuel, rfl⟩ := exists_fuel h hfuel
  refine readPayload h rfl fun _ hpayload hinside => hpayload.readRecord fun record
    ⟨htypes, htype, hvarargs, hspan⟩ => ?_
  have hnull : read? fuel .null = none := by cases fuel <;> rfl
  have hvarargs : record.withDefault "varargs" Json.bool? false = some varargs :=
    hvarargs.withDefault (fun _ hv _ => by rw [hv.eq_scalar]; rfl) Json.bool.inj
  exact reads (htypes.required fun _ hv hi => hv.list? fun type ht _ hv hj =>
      hparams type ht (hfits.1 type ht) (by omega) hv) <|
    reads (htype.optional hnull toJson_ne_null fun type ht _ hv hi =>
      hresult type ht (hfits.2.1 type ht) (by omega) hv) <|
    reads hvarargs <| reads (hspan.required fun _ hv _ => FileSpan.ofJson?_variation hfits.2.2 hv) rfl

mutual
theorem readable : ∀ type : TypeExpr, type.Readable
  | .named name span => readable_named
  | .pointer pointee span => readable_pointer (readable pointee)
  | .function params none varargs span => readable_function (allReadable params) (fun _ h => by cases h)
  | .function params (some result) varargs span =>
    readable_function (allReadable params) (fun _ h => by cases h; exact readable result)

theorem allReadable : ∀ types : List TypeExpr, ∀ type ∈ types, type.Readable
  | first :: rest, type, h => by
    rcases List.mem_cons.mp h with heq | h
    · exact heq ▸ readable first
    · exact allReadable rest type h
end

end TypeExpr

theorem TypeExpr.ofJson?_variation {type : TypeExpr} (hf : type.Fits) (h : Varies .recursive type.toJson json) :
    TypeExpr.ofJson? json = some type :=
  readable type hf (Nat.le_refl _) h

end SsaCompiler
