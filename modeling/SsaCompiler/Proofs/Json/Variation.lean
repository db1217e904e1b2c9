import Mathlib.Data.List.Forall2
import SsaCompiler.Json.Record

/-!
# Other ways to write a JSON value

The same value can be written in several ways, which depend on what stands where (`Json.Shape`). The
members of a record can stand in another order and among members that the record does not have, one that
has its default can be left out, and a record can be the list of its members. A variant without payload
can have a null one. `Json.Variation` relates a value to all that it can be written as, each part being
written in any of these ways. What is read of a record depends on its members only
(`Json.Variation.record?`).
-/

namespace SsaCompiler

open List

namespace Json

/-- What is written at some place. -/
inductive Shape where
  | scalar
  | list (element : Shape)
  /-- A record. Each member has a name, the default it has if it is left out, and a shape. -/
  | record (fields : List (String × Option Json × Shape))
  /-- A variant. Each has a name, and a shape if it has a payload. -/
  | variant (cases : List (String × Option Shape))
  /-- A value of the shape that a recursive format is about. -/
  | recursive

/-- A value in the form that writes everything, and another form of it. -/
inductive Variation (root : Shape) : Shape → Json → Json → Prop
  | same (shape : Shape) (json : Json) : Variation root shape json json
  /-- Each element of a list is written in some way. -/
  | elements {shape : Shape} {xs ys : List Json} (length : ys.length = xs.length)
      (varies : ∀ {i : Nat} {x y : Json}, xs[i]? = some x → ys[i]? = some y → Variation root shape x y) :
      Variation root (.list shape) (.array xs) (.array ys)
  /-- Members stand in any order, none of them twice, among others that the record does not have. One
  that is missing has its default. -/
  | members {fields : List (String × Option Json × Shape)} {written members : List (String × Json)}
      (once : ((members.filter fun member => (fields.map (·.1)).contains member.1).map (·.1)).Nodup)
      (varies : ∀ {field : String × Option Json × Shape} {value value' : Json}, field ∈ fields →
        (field.1, value) ∈ written → members.lookup field.1 = some value' → Variation root field.2.2 value value')
      (omitted : ∀ {field : String × Option Json × Shape} {value : Json}, field ∈ fields →
        (field.1, value) ∈ written → members.lookup field.1 = none → field.2.1 = some value) :
      Variation root (.record fields) (.object written) (.object members)
  /-- All members of a record are listed. -/
  | listed {fields : List (String × Option Json × Shape)} {written : List (String × Json)} {values : List Json}
      (length : values.length = fields.length)
      (varies : ∀ {i : Nat} {field : String × Option Json × Shape} {value value' : Json}, fields[i]? = some field →
        written[i]? = some (field.1, value) → values[i]? = some value' → Variation root field.2.2 value value') :
      Variation root (.record fields) (.object written) (.array values)
  | bare {cases : List (String × Option Shape)} {name : String} (payloadFree : (name, none) ∈ cases) :
      Variation root (.variant cases) (.string name) (.object [(name, .null)])
  | payload {cases : List (String × Option Shape)} {name : String} {shape : Shape} {value value' : Json}
      (among : (name, some shape) ∈ cases) (varies : Variation root shape value value') :
      Variation root (.variant cases) (.object [(name, value)]) (.object [(name, value')])
  | recursive {json json' : Json} (varies : Variation root root json json') : Variation root .recursive json json'

/-! ## Depth -/

theorem depth_le_depthElements {elements : List Json} {json : Json} (h : json ∈ elements) :
    json.depth ≤ depthElements elements := by
  induction elements with
  | nil => cases h
  | cons element rest ih =>
    rcases mem_cons.mp h with rfl | h
    · exact Nat.le_max_left _ _
    · exact Nat.le_trans (ih h) (Nat.le_max_right _ _)

variable {members written : List (String × Json)} {fields : List (String × Option Json × Shape)}
  {cases : List (String × Option Shape)} {name : String} {β : Type}

theorem depth_le_depthMembers {member : String × Json} (h : member ∈ members) :
    member.2.depth ≤ depthMembers members := by
  induction members with
  | nil => cases h
  | cons first rest ih =>
    rcases mem_cons.mp h with rfl | h
    · exact Nat.le_max_left _ _
    · exact Nat.le_trans (ih h) (Nat.le_max_right _ _)

/-! ## Members by name -/

theorem lookup_eq_some_mem {members : List (String × β)} {value : β}
    (h : members.lookup name = some value) : (name, value) ∈ members := by
  induction members with
  | nil => cases h
  | cons first rest ih =>
    rw [lookup_cons] at h
    split at h
    · rename_i heq
      cases h
      rw [beq_iff_eq.mp heq]
      exact .head _
    · exact .tail _ (ih h)

theorem lookup_of_mem {members : List (String × β)} (hnodup : (members.map (·.1)).Nodup)
    {value : β} (h : (name, value) ∈ members) : members.lookup name = some value := by
  induction members with
  | nil => cases h
  | cons first rest ih =>
    rw [map_cons, nodup_cons] at hnodup
    rw [lookup_cons]
    rcases mem_cons.mp h with rfl | h
    · simp
    · have hne : (name == first.1) = false :=
        beq_false_of_ne fun heq => hnodup.1 (mem_map.mpr ⟨_, h, heq⟩)
      rw [hne]
      exact ih hnodup.2 h

theorem lookup_filter {keep : String → Bool} (h : keep name = true) :
    (members.filter fun member => keep member.1).lookup name = members.lookup name := by
  induction members with
  | nil => rfl
  | cons first rest ih =>
    rw [filter_cons, lookup_cons]
    by_cases hfirst : keep first.1 = true
    · rw [if_pos hfirst, lookup_cons, ih]
    · have hne : (name == first.1) = false := beq_false_of_ne fun heq => hfirst (heq ▸ h)
      rw [if_neg hfirst, hne]
      exact ih

/-! ## Records -/

/-- What is found of a member with a given value: some form of it, less deep than the record, or
nothing if the value is the default. -/
inductive Found (root : Shape) (depth : Nat) (record : Record) (field : String × Option Json × Shape) (value : Json) : Prop
  | written {value' : Json} (get : record.get? field.1 = some value') (varies : Variation root field.2.2 value value')
      (inside : value'.depth < depth)
  | omitted (get : record.get? field.1 = none) (object : record.positional = false) (default : field.2.1 = some value)

theorem Variation.record? {root : Shape} {json : Json} (hnames : written.map (·.1) = fields.map (·.1))
    (hnodup : (fields.map (·.1)).Nodup) (h : Variation root (.record fields) (.object written) json) : ∃ record,
      json.record? (fields.map (·.1)) = some record ∧
      Forall₂ (fun field member => Found root json.depth record field member.2) fields written := by
  have hlength : fields.length = written.length := by simpa using (congrArg List.length hnames).symm
  -- A field and the member written for it have the same name.
  have hmember : ∀ {i : Nat} {field : String × Option Json × Shape} {member : String × Json}, fields[i]? = some field →
      written[i]? = some member → member.1 = field.1 := by
    intro i field member hf hm
    have hi := congrArg (·[i]?) hnames
    simpa [hf, hm] using hi
  have hforall : ∀ {record : Record}, (∀ {i : Nat} {field : String × Option Json × Shape} {value : Json},
      fields[i]? = some field → written[i]? = some (field.1, value) → Found root json.depth record field value) →
      Forall₂ (fun field member => Found root json.depth record field member.2) fields written := by
    intro record hfound
    refine List.forall₂_iff_zip.mpr ⟨hlength, fun {field member} hzip => ?_⟩
    obtain ⟨i, hi⟩ := mem_iff_getElem?.mp hzip
    obtain ⟨hf, hm⟩ := getElem?_zip_eq_some.mp hi
    exact hfound hf (by rw [hm, ← hmember hf hm])
  have hobject : ∀ {members : List (String × Json)}, json = .object members →
      ((members.filter fun member => (fields.map (·.1)).contains member.1).map (·.1)).Nodup →
      (∀ {field : String × Option Json × Shape} {value value' : Json}, field ∈ fields → (field.1, value) ∈ written →
        members.lookup field.1 = some value' → Variation root field.2.2 value value') →
      (∀ {field : String × Option Json × Shape} {value : Json}, field ∈ fields → (field.1, value) ∈ written →
        members.lookup field.1 = none → field.2.1 = some value) → ∃ record,
      json.record? (fields.map (·.1)) = some record ∧
      Forall₂ (fun field member => Found root json.depth record field member.2) fields written := by
    rintro members rfl honce hvaries homitted
    refine ⟨_, by simp only [Json.record?]; rw [if_pos honce], hforall fun {i field value} hf hm => ?_⟩
    have hfield := mem_of_getElem? hf
    have hwritten := mem_of_getElem? hm
    have hknown : (fields.map (·.1)).contains field.1 = true := by simpa using ⟨_, _, hfield⟩
    cases hlookup : members.lookup field.1 with
    | none => exact .omitted ((lookup_filter hknown).trans hlookup) rfl (homitted hfield hwritten hlookup)
    | some value' =>
      refine .written ((lookup_filter hknown).trans hlookup) (hvaries hfield hwritten hlookup) ?_
      exact Nat.lt_succ_of_le (depth_le_depthMembers (lookup_eq_some_mem hlookup))
  have hwrittenNodup : (written.map (·.1)).Nodup := hnames ▸ hnodup
  cases h with
  | same =>
    refine hobject rfl ?_ ?_ ?_
    · exact (filter_sublist.map _).nodup hwrittenNodup
    · intro field value value' _ hm hlookup
      rw [lookup_of_mem hwrittenNodup hm] at hlookup
      cases hlookup
      exact .same _ _
    · intro field value _ hm hlookup
      rw [lookup_of_mem hwrittenNodup hm] at hlookup
      cases hlookup
  | members once varies omitted => exact hobject rfl once varies omitted
  | @listed _ _ values length varies =>
    refine ⟨⟨(fields.map (·.1)).zip values, true⟩, by simp [Json.record?, length], hforall fun {i field value} hf hm => ?_⟩
    obtain ⟨hi, -⟩ := List.getElem?_eq_some_iff.mp hf
    have hv : values[i]? = some values[i] := getElem?_eq_getElem (by omega)
    refine .written (lookup_of_mem ?_ ?_) (varies hf hm hv) ?_
    · rw [map_fst_zip (by simp [length])]
      exact hnodup
    · refine mem_of_getElem? (i := i) (getElem?_zip_eq_some.mpr ⟨?_, hv⟩)
      simp [hf]
    · rw [depth]
      exact Nat.lt_succ_of_le (depth_le_depthElements (mem_of_getElem? hv))

/-! ## Reading members -/

variable {root shape : Shape} {depth : Nat} {record : Record} {json : Json} {α β : Type}
  {decode : Json → Option α} {next : String × Option Json → Option α} {encode : α → Json} {a : α}
variable {value : Json}

def AllFound (root : Shape) (depth : Nat) (record : Record) :
    List (String × Option Json × Shape) → List (String × Json) → Prop
  | [field], [member] => Found root depth record field member.2
  | field :: rest, member :: more => Found root depth record field member.2 ∧ AllFound root depth record rest more
  | _, _ => True

theorem allFound_of_forall₂ (h : Forall₂ (fun field member => Found root depth record field member.2) fields written) :
    AllFound root depth record fields written := by
  induction h with
  | nil => trivial
  | cons hf hrest ih =>
    cases hrest with
    | nil => exact hf
    | cons => exact ⟨hf, ih⟩

theorem reads {x : Option α} {f : α → Option β} {b : β} (h : x = some a) (hf : f a = some b) : (x >>= f) = some b := by
  rw [h]
  exact hf

theorem Variation.readRecord {next : Record → Option α} (h : Variation root (.record fields) (.object written) json)
    (hnext : ∀ record, AllFound root json.depth record fields written → next record = some a)
    (hnames : written.map (·.1) = fields.map (·.1) := by rfl) (hnodup : (fields.map (·.1)).Nodup := by decide) :
    (json.record? (fields.map (·.1)) >>= next) = some a := by
  obtain ⟨record, hrecord, hfound⟩ := h.record? hnames hnodup
  exact reads hrecord (hnext record (allFound_of_forall₂ hfound))

theorem Variation.eq_null (h : Variation root shape .null json) : json = .null := by
  generalize hnull : Json.null = value at h
  induction h with
  | same => rfl
  | recursive _ ih => exact ih hnull
  | _ => cases hnull

theorem Found.required (h : Found root depth record (name, none, shape) value)
    (hd : ∀ json, Variation root shape value json → json.depth < depth → decode json = some a) :
    record.required name decode = some a := by
  cases h with
  | written get varies inside =>
    rw [Record.required, get]
    exact hd _ varies inside
  | omitted _ _ default => cases default

theorem Found.withDefault {fallback : Json} {b : α} (h : Found root depth record (name, some fallback, shape) value)
    (hd : ∀ json, Variation root shape value json → json.depth < depth → decode json = some a)
    (hb : value = fallback → a = b) : record.withDefault name decode b = some a := by
  cases h with
  | written get varies inside =>
    rw [Record.withDefault, get]
    exact hd _ varies inside
  | omitted get _ default => rw [Record.withDefault, get, hb (Option.some.inj default).symm]

theorem nullable?_of_decode (hnull : decode .null = none) (h : decode json = some a) :
    nullable? decode json = some (some a) := by
  cases json with
  | null =>
    rw [hnull] at h
    cases h
  | _ => exact congrArg (Option.map some) h

/-- A member that may be absent and has no other default. -/
theorem Found.nullable {a : Option α} (h : Found root depth record (name, some .null, shape) (optional encode a))
    (hnull : decode .null = none) (hencode : ∀ b, encode b ≠ .null)
    (hd : ∀ b, a = some b → ∀ json, Variation root shape (encode b) json → json.depth < depth → decode json = some b) :
    record.withDefault name (Json.nullable? decode) none = some a := by
  cases a with
  | none =>
    refine h.withDefault (fun json hv _ => ?_) fun _ => rfl
    rw [hv.eq_null]
    rfl
  | some b =>
    exact h.withDefault (fun json hv hi => nullable?_of_decode hnull (hd b rfl json hv hi))
      fun hnone => absurd hnone (hencode b)

theorem Found.optional {a : Option α}
    (h : Found root depth record (name, some .null, shape) (Json.optional encode a)) (hnull : decode .null = none)
    (hencode : ∀ b, encode b ≠ .null)
    (hd : ∀ b, a = some b → ∀ json, Variation root shape (encode b) json → json.depth < depth → decode json = some b) :
    record.optional name decode = some a := by
  have hread := h.nullable hnull hencode hd
  rw [Record.withDefault] at hread
  rw [Record.optional]
  cases h with
  | written get =>
    rw [get] at hread ⊢
    exact hread
  | omitted get object =>
    rw [if_neg (by simp [object])]
    exact hread

theorem Variation.list? {values : List α} (h : Variation root (.list shape) (list encode values) json)
    (hd : ∀ value ∈ values, ∀ element, Variation root shape (encode value) element → element.depth < json.depth →
      decode element = some value) :
    list? decode json = some values := by
  have hread : ∀ {elements : List Json}, json = .array elements → elements.length = values.length →
      (∀ {i : Nat} {value : α} {element : Json}, values[i]? = some value → elements[i]? = some element →
        Variation root shape (encode value) element) → Json.list? decode json = some values := by
    rintro elements rfl hlength hvaries
    have hforall : Forall₂ (fun element value => decode element = some value) elements values := by
      refine List.forall₂_iff_zip.mpr ⟨hlength, fun {element value} hzip => ?_⟩
      obtain ⟨i, hi⟩ := mem_iff_getElem?.mp hzip
      obtain ⟨he, hv⟩ := getElem?_zip_eq_some.mp hi
      refine hd value (mem_of_getElem? hv) element (hvaries hv he) ?_
      exact Nat.lt_succ_of_le (depth_le_depthElements (mem_of_getElem? he))
    clear hd hvaries hlength h
    show elements.mapM decode = some values
    induction hforall with
    | nil => rfl
    | cons hfirst _ ih => rw [mapM_cons, hfirst, ih]; rfl
  cases h with
  | same =>
    refine hread rfl (by simp) fun {i value element} hv he => ?_
    rw [getElem?_map, hv] at he
    cases he
    exact .same _ _
  | elements length varies =>
    refine hread rfl (by simpa using length) fun {i value element} hv he => varies ?_ he
    rw [getElem?_map, hv]
    rfl

theorem Variation.eq_scalar (h : Variation root .scalar value json) : json = value := by
  cases h
  rfl

/-! ## Variants -/

theorem Variation.readPayload {payload : Json} (h : Variation root (.variant cases) (.object [(name, payload)]) json)
    (hcase : cases.lookup name = some (some shape))
    (hnext : ∀ payload', Variation root shape payload payload' → payload'.depth < json.depth →
      next (name, some payload') = some a)
    (hnodup : (cases.map (·.1)).Nodup := by decide) :
    (json.variant? >>= next) = some a := by
  have hinside : ∀ json : Json, json.depth < (Json.object [(name, json)]).depth := fun json => by
    simp [Json.depth, depthMembers]
  cases h with
  | same => exact hnext payload (.same _ _) (hinside _)
  | @payload _ _ found _ value' among varies =>
    have hsame := (lookup_of_mem hnodup among).symm.trans hcase
    cases hsame
    exact hnext value' varies (hinside _)

/-- A variant whose payload is a record is read member by member. -/
theorem Variation.readVariant {make : Record → Option α}
    (h : Variation root (.variant cases) (.object [(name, .object written)]) json)
    (hcase : cases.lookup name = some (some (.record fields)))
    (hmake : ∀ payload, next (name, some payload) = payload.record? (fields.map (·.1)) >>= make)
    (hnext : ∀ depth record, AllFound root depth record fields written → make record = some a)
    (hnames : written.map (·.1) = fields.map (·.1) := by rfl) (hfields : (fields.map (·.1)).Nodup := by decide)
    (hcases : (cases.map (·.1)).Nodup := by decide) : (json.variant? >>= next) = some a :=
  h.readPayload hcase (fun payload hpayload _ =>
    (hmake payload).trans (hpayload.readRecord (hnext payload.depth) hnames hfields)) hcases

theorem Variation.bareVariant? (h : Variation root (.variant cases) (.string name) json) :
    json.bareVariant? = some name := by
  cases h with
  | same => rfl
  | bare => rfl

end Json

end SsaCompiler
