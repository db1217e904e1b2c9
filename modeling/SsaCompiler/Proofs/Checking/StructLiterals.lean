import SsaCompiler.Proofs.Checking.Total

/-!
# Mistakes in struct literals

The errors of a struct literal whose values check are those of its initializers in the order written, then one for
each field that is left out (`Check.literalErrors`). A field that is initialized again is reported with where it was
initialized last, which is where it was initialized first unless it is named three times.
-/

namespace SsaCompiler

open List Table

namespace Check

variable {ctx : CheckContext} {id : StructId} {struct : StructDef} {before : List Init} {inits : List (Init × Ty)}
  {init : Init} {name : String} {seen : Table Nat FileSpan} {span : FileSpan} {s : CheckState}

def sitesOf (name : String) (inits : List Init) : List FileSpan :=
  (inits.filter (·.name = name)).map (·.span)

/-- The error of an initializer after others. Of the places where its field was initialized before, `cited` picks
the one to report. -/
def initError? (ctx : CheckContext) (id : StructId) (struct : StructDef) (cited : List FileSpan → Option FileSpan)
    (before : List Init) (init : Init) (found : Ty) : Option TypeError :=
  match struct.field? init.name, cited (sitesOf init.name before) with
  | none, _ => some (.unknownField (ctx.decls.describe (.aggregate id)) init.name init.span)
  | some _, some earlier => some (.duplicate init.name init.span earlier)
  | some (_, field), none =>
    if found.assignableTo field.type then none else some (mismatch ctx field.type found init.span)

def initErrors (ctx : CheckContext) (id : StructId) (struct : StructDef) (cited : List FileSpan → Option FileSpan) :
    List Init → List (Init × Ty) → List TypeError
  | _, [] => []
  | before, (init, found) :: rest =>
    (initError? ctx id struct cited before init found).toList ++
      initErrors ctx id struct cited (before ++ [init]) rest

def missingError (span : FileSpan) (field : FieldDef) : TypeError :=
  .mismatch s!"an initializer for field `{field.name}`" "none" span

/-- The errors of a literal of a struct: those of its initializers, then of the fields that none of them names. -/
def literalErrors (ctx : CheckContext) (id : StructId) (struct : StructDef)
    (cited : List FileSpan → Option FileSpan) (inits : List (Init × Ty)) (span : FileSpan) : List TypeError :=
  initErrors ctx id struct cited [] inits ++
    (struct.fields.filter (·.name ∉ inits.map (·.1.name))).map (missingError span)

/-- An initializer names a field that its value can be assigned to. -/
def Fits (struct : StructDef) (init : Init × Ty) : Prop :=
  ∃ index field, struct.field? init.1.name = some (index, field) ∧ init.2.assignableTo field.type = true

/-! ## What is reported -/

/-- The positions seen are those of the fields that were named, each with where it was named last. -/
def Seen (struct : StructDef) (before : List Init) (seen : Table Nat FileSpan) : Prop :=
  ∀ name index field, struct.field? name = some (index, field) → seen.get? index = (sitesOf name before).getLast?

theorem sitesOf_eq_nil : sitesOf name before = [] ↔ name ∉ before.map (·.name) := by simp [sitesOf]

theorem sitesOf_append_singleton : sitesOf name (before ++ [init]) =
    sitesOf name before ++ if init.name = name then [init.span] else [] := by
  by_cases h : init.name = name <;> simp [sitesOf, h]

theorem Seen.unknown (h : Seen struct before seen) (hinit : struct.field? init.name = none) :
    Seen struct (before ++ [init]) seen := by
  intro name index field hfield
  have hne : init.name ≠ name := by
    rintro rfl
    cases hinit.symm.trans hfield
  rw [sitesOf_append_singleton, if_neg hne, append_nil, h name index field hfield]

theorem Seen.named {index : Nat} {field : FieldDef} (h : Seen struct before seen)
    (hinit : struct.field? init.name = some (index, field)) :
    Seen struct (before ++ [init]) (seen.insert index init.span) := by
  intro name other field' hfield
  rw [get?_insert, sitesOf_append_singleton]
  by_cases hname : init.name = name
  · subst hname
    cases hinit.symm.trans hfield
    simp
  · -- Two names have two positions, as a position has one name.
    have hne : other ≠ index := by
      rintro rfl
      obtain ⟨hget, hn⟩ := StructDef.getElem?_of_field? hinit
      obtain ⟨hget', hn'⟩ := StructDef.getElem?_of_field? hfield
      cases hget.symm.trans hget'
      exact hname (hn.symm.trans hn')
    rw [if_neg hne, if_neg hname, append_nil, h name other field' hfield]

theorem errors_expectAssignable (expr : ExprId) (found expected : Ty) : ∃ s',
    (expectAssignable ctx expr found expected span : Check Unit).run s = .ok ((), s') ∧ s'.errors = s.errors ++
      (if found.assignableTo expected then none else some (mismatch ctx expected found span)).toList := by
  unfold expectAssignable coerce
  split
  · split <;> exact ⟨_, rfl, (append_nil _).symm⟩
  · exact ⟨_, rfl, rfl⟩

theorem errors_recorded (expr : Expr) {x : Check Ty} {type : Ty} {s' : CheckState} (h : x.run s = .ok (type, s')) :
    ∃ t, (recorded expr x).run s = .ok (type, t) ∧ t.errors = s'.errors := by
  obtain ⟨t, hrest, ht⟩ : ∃ t, (do
      if expr.diverges then note (·.setDiverging expr.id)
      note (·.setType expr.id type)
      return type : Check Ty).run s' = .ok (type, t) ∧ t.errors = s'.errors := by
    split <;> exact ⟨_, rfl, rfl⟩
  exact ⟨t, run_bind_eq_ok.mpr ⟨type, s', h, hrest⟩, ht⟩

theorem errors_initializers (h : Seen struct before seen) (positions : List Nat) : ∃ positions' seen' s',
    (initializers ctx id struct inits positions seen : Check _).run s = .ok ((positions', seen'), s') ∧
      s'.errors = s.errors ++ initErrors ctx id struct getLast? before inits ∧
      Seen struct (before ++ inits.map (·.1)) seen' := by
  induction inits generalizing before seen positions s with
  | nil => exact ⟨positions, seen, s, rfl, (append_nil _).symm, (append_nil before).symm ▸ h⟩
  | cons first rest ih =>
    obtain ⟨init, found⟩ := first
    rw [map_cons, append_cons before, initErrors, initError?, initializers]
    cases hfield : struct.field? init.name with
    | none =>
      obtain ⟨positions', seen', s', hrun, herrors, hseen⟩ := ih (h.unknown hfield) positions
        (s := { s with errors := s.errors ++ [_] })
      exact ⟨positions', seen', s', hrun, by simpa using herrors, hseen⟩
    | some entry =>
      obtain ⟨index, field⟩ := entry
      dsimp only
      rw [h init.name index field hfield]
      cases (sitesOf init.name before).getLast? with
      | some earlier =>
        obtain ⟨positions', seen', s', hrun, herrors, hseen⟩ := ih (h.named hfield) positions
          (s := { s with errors := s.errors ++ [_] })
        exact ⟨positions', seen', s', hrun, by simpa using herrors, hseen⟩
      | none =>
        obtain ⟨s1, hexpect, hs1⟩ := @errors_expectAssignable ctx init.span s init.value.id found field.type
        obtain ⟨positions', seen', s', hrun, herrors, hseen⟩ := ih (h.named hfield) (positions ++ [index]) (s := s1)
        exact ⟨positions', seen', s', run_bind_eq_ok.mpr ⟨(), s1, hexpect, hrun⟩, by simpa [hs1] using herrors, hseen⟩

theorem errors_missingFields (fields : List (FieldDef × Nat)) : ∃ s',
    (missingFields seen span fields : Check _).run s = .ok ((), s') ∧
      s'.errors = s.errors ++ (fields.filter fun field => !seen.contains field.2).map (missingError span ·.1) := by
  induction fields generalizing s with
  | nil => exact ⟨s, rfl, (append_nil _).symm⟩
  | cons field rest ih =>
    rw [missingFields]
    cases hseen : seen.contains field.2 with
    | true =>
      obtain ⟨s', hrun, herrors⟩ := ih (s := s)
      exact ⟨s', hrun, by simpa [hseen] using herrors⟩
    | false =>
      obtain ⟨s', hrun, herrors⟩ := ih (s := { s with errors := s.errors ++ [missingError span field.1] })
      exact ⟨s', hrun, by simpa [hseen] using herrors⟩

theorem field?_of_getElem? (hnd : (struct.fields.map (·.name)).Nodup) {index : Nat} {field : FieldDef}
    (h : struct.fields[index]? = some field) : struct.field? field.name = some (index, field) := by
  obtain ⟨hlt, hget⟩ := List.getElem?_eq_some_iff.mp h
  have hfind : struct.fields.findIdx? (·.name = field.name) = some index := by
    refine findIdx?_eq_some_iff_getElem.mpr ⟨hlt, by simp [hget], fun j hj => ?_⟩
    have hne := pairwise_iff_getElem.mp hnd j index (by simp; omega) (by simpa using hlt) hj
    simpa [hget] using hne
  simp [StructDef.field?, hfind, h]

/-- The positions that were not seen are those of the fields that were not named. -/
theorem Seen.missing (h : Seen struct before seen) (hnd : (struct.fields.map (·.name)).Nodup) :
    (struct.fields.zipIdx.filter fun field => !seen.contains field.2).map (missingError span ·.1) =
      (struct.fields.filter (·.name ∉ before.map (·.name))).map (missingError span) := by
  have hsame : ∀ field ∈ struct.fields.zipIdx,
      (!seen.contains field.2) = decide (field.1.name ∉ before.map (·.name)) := by
    rintro ⟨field, index⟩ hf
    rw [Table.contains, h field.name index field (field?_of_getElem? hnd (mem_zipIdx_iff_getElem?.mp hf))]
    simp only [← sitesOf_eq_nil]
    cases sitesOf field.name before <;> simp
  rw [filter_congr hsame]
  conv_rhs => rw [← zipIdx_map_fst 0 struct.fields, filter_map, map_map]
  rfl

/-! ## Literals without mistakes, and with few repetitions -/

theorem initErrors_eq_nil : initErrors ctx id struct getLast? before inits = [] ↔
    (∀ init ∈ inits, Fits struct init ∧ init.1.name ∉ before.map (·.name)) ∧ (inits.map (·.1.name)).Nodup := by
  induction inits generalizing before with
  | nil => simp [initErrors]
  | cons first rest ih =>
    obtain ⟨init, found⟩ := first
    have hfirst : initError? ctx id struct getLast? before init found = none ↔
        Fits struct (init, found) ∧ init.name ∉ before.map (·.name) := by
      rw [← sitesOf_eq_nil, initError?]
      unfold Fits
      cases struct.field? init.name with
      | none => simp
      | some entry =>
        obtain ⟨index, field⟩ := entry
        cases sitesOf init.name before <;> simp [getLast?_cons]
    rw [initErrors, append_eq_nil_iff, Option.toList_eq_nil_iff, hfirst, ih]
    simp only [map_append, map_cons, map_nil, mem_append, mem_singleton, not_or, forall_mem_cons, nodup_cons, mem_map,
      not_exists, not_and]
    grind

/-- As long as no field is named three times, where it was named last before is where it was named first. -/
theorem initErrors_cited (h : ∀ name, (before.map (·.name) ++ inits.map (·.1.name)).count name ≤ 2) :
    initErrors ctx id struct getLast? before inits = initErrors ctx id struct head? before inits := by
  induction inits generalizing before with
  | nil => rfl
  | cons first rest ih =>
    obtain ⟨init, found⟩ := first
    have hlength : (sitesOf init.name before).length = (before.map (·.name)).count init.name := by
      rw [sitesOf, length_map, count, countP_map, countP_eq_length_filter]
      rfl
    have hcount := h init.name
    rw [map_cons, count_append, count_cons_self, ← hlength] at hcount
    have hsame : (sitesOf init.name before).getLast? = (sitesOf init.name before).head? := by
      match sitesOf init.name before, (by omega : (sitesOf init.name before).length ≤ 1) with
      | [], _ => rfl
      | [_], _ => rfl
    rw [initErrors, initErrors, initError?, initError?, hsame, ih (by simpa using h)]

theorem length_inferInits {inits : List Init} {types : List Ty} {s1 : CheckState}
    (h : (inferInits ctx inits : Check _).run s = .ok (types, s1)) : types.length = inits.length := by
  induction inits generalizing types s with
  | nil =>
    cases h
    rfl
  | cons init rest ih =>
    cases init
    obtain ⟨type, s2, -, h⟩ := run_bind_eq_ok.mp h
    obtain ⟨others, s3, hrest, h⟩ := run_bind_eq_ok.mp h
    cases h
    rw [length_cons, length_cons, ih hrest]

end Check

open Check

/-- A struct literal whose name is that of a struct and whose values check is given the type of the struct. The errors
it adds are those of `literalErrors`, with repeated fields reported against where they were initialized first unless a
field is named three times. It adds none exactly if it names all fields, each once, with values that fit. -/
theorem structLiteral_diagnosed {ctx : CheckContext} {units : List SourceUnit} {id : ExprId} {span : FileSpan}
    {name : String} {inits : List Init} {s s1 : CheckState} {types : List Ty} {structId : StructId}
    (hdecls : Declarations.collect units = .ok ctx.decls)
    (hvalues : (inferInits ctx inits : Check _).run s = .ok (types, s1)) (hquiet : s1.errors = s.errors)
    (hname : ctx.decls.resolveType ctx.unitName (.named name span) = (.ok (.ok (.aggregate structId)) : Except Fault _)) :
    ∃ struct s', ctx.decls.struct? structId = some struct ∧
      (inferExpr ctx (.structLiteral id span name inits) : Check _).run s = .ok (.aggregate structId, s') ∧
      s'.errors = s.errors ++ literalErrors ctx structId struct getLast? (inits.zip types) span ∧
      ((∀ field, (inits.map (·.name)).count field ≤ 2) →
        s'.errors = s.errors ++ literalErrors ctx structId struct head? (inits.zip types) span) ∧
      (s'.errors = s.errors ↔ (∀ init ∈ inits.zip types, Fits struct init) ∧ (inits.map (·.name)).Nodup ∧
        ∀ field ∈ struct.fields, field.name ∈ inits.map (·.name)) := by
  obtain ⟨base, structs, hd⟩ := Declarations.collected hdecls
  obtain ⟨result, hresolved, hover⟩ : ∃ result, ctx.decls.resolveType ctx.unitName (.named name span) =
      (.ok result : Except Fault _) ∧ OfOk (Ty.Over ctx.decls.structs.size) result := hd.bounded.resolveType
  cases hname.symm.trans hresolved
  have hstruct : ctx.decls.struct? structId = some ctx.decls.structs[structId.index] := Array.getElem?_eq_getElem hover
  have hnd := hd.nodup_fields _ (Array.mem_toList_iff.mpr (Array.getElem_mem hover))
  generalize ctx.decls.structs[structId.index] = struct at hstruct hnd
  have hzip : (inits.zip types).map (·.1) = inits := map_fst_zip (length_inferInits hvalues).ge
  have hnames : (inits.zip types).map (·.1.name) = inits.map (·.name) := by
    rw [← congrArg (map Init.name) hzip, map_map]
    rfl
  obtain ⟨positions, seen, s2, hinits, herrors2, hseen⟩ :=
    @errors_initializers ctx structId struct [] (inits.zip types) .empty s1 (fun _ _ _ _ => rfl) []
  obtain ⟨s3, hmissing, herrors3⟩ := @errors_missingFields seen span s2 struct.fields.zipIdx
  have htype : (annotatedType ctx (.named name span) : Check _).run s1 = .ok (.aggregate structId, s1) :=
    run_bind_eq_ok.mpr ⟨_, s1, run_lift_eq_ok.mpr ⟨hname, rfl⟩, rfl⟩
  have hrun : (structLiteral ctx id name (inits.zip types) span : Check _).run s1 = .ok (.aggregate structId,
      { s3 with function := { s3.function with
        structLiterals := s3.function.structLiterals.insert id ⟨structId, positions⟩ } }) := by
    refine run_bind_eq_ok.mpr ⟨_, s1, htype, ?_⟩
    dsimp only
    rw [hstruct]
    exact run_bind_eq_ok.mpr ⟨_, s2, hinits, run_bind_eq_ok.mpr ⟨_, s3, hmissing, rfl⟩⟩
  obtain ⟨s', hinfer, hs'⟩ := errors_recorded (.structLiteral id span name inits) (x := do
      let types ← inferInits ctx inits
      structLiteral ctx id name (inits.zip types) span) (run_bind_eq_ok.mpr ⟨types, s1, hvalues, hrun⟩)
  have herrors : s'.errors = s.errors ++ literalErrors ctx structId struct getLast? (inits.zip types) span := by
    rw [hs', herrors3, hseen.missing hnd, herrors2, hquiet, literalErrors, append_assoc, nil_append, map_map]
    rfl
  refine ⟨struct, s', hstruct, by rw [inferExpr]; exact hinfer, herrors, fun htwice => ?_, ?_⟩
  · rw [herrors, literalErrors, literalErrors, initErrors_cited]
    simpa [hnames] using htwice
  · rw [herrors, append_right_eq_self, literalErrors, append_eq_nil_iff, initErrors_eq_nil, hnames, map_eq_nil_iff,
      filter_eq_nil_iff]
    simp [and_assoc]

namespace Repeated

/-- `struct P { x: i32 }` -/
def program : SourceUnit where
  name := "m"
  file := ⟨0⟩
  path := none
  items := [.struct ⟨"P", [⟨"x", .named "i32" default, default⟩], default⟩]

/-- `x: 0, x: 0, ...` -/
def inits (count : Nat) : List Init :=
  (range count).map fun i => .mk "x" ⟨⟨0⟩, ⟨i, i + 1⟩⟩ (.literal ⟨i⟩ default (.int 0 none))

def ctx (decls : Declarations) : CheckContext := ⟨decls, "m", .unit⟩

def start (decls : Declarations) : CheckState :=
  ⟨⟨decls.index, ⟨0⟩, ⟨#[]⟩, ⟨0⟩, #[]⟩, .start ⟨.item 0, ⟨0⟩, 1, "m::f", [], .unit, false, none, false, default⟩ 4, [], .empty⟩

def literal (count : Nat) : Expr := .structLiteral ⟨count⟩ default "P" (inits count)

end Repeated

theorem structLiteral_diagnosed_repeated : ∃ decls struct s', Declarations.collect [Repeated.program] = .ok decls ∧
    decls.struct? ⟨0⟩ = some struct ∧
    (inferExpr (Repeated.ctx decls) (Repeated.literal 2) : Check _).run (Repeated.start decls) = .ok (.aggregate ⟨0⟩, s') ∧
    s'.errors = literalErrors (Repeated.ctx decls) ⟨0⟩ struct head? ((Repeated.inits 2).zip [.int 32, .int 32]) default := by
  have htest : ((Declarations.collect [Repeated.program]).toOption.any fun decls =>
      ((inferInits (Repeated.ctx decls) (Repeated.inits 2) : Check _).run (Repeated.start decls)).toOption.any (fun r =>
        r.1 = [.int 32, .int 32] && r.2.errors = []) &&
          (decls.resolveType (m := Except Fault) "m" (.named "P" default)).toOption.any fun result =>
            result.toOption.any (· = .aggregate ⟨0⟩)) = true := by decide +kernel
  obtain ⟨decls, hdecls, htest⟩ := exists_ok htest
  obtain ⟨hvalues, hname⟩ := Bool.and_eq_true_iff.mp htest
  obtain ⟨⟨types, s1⟩, hvalues, htypes⟩ := exists_ok hvalues
  obtain ⟨rfl, hquiet⟩ : types = [.int 32, .int 32] ∧ s1.errors = [] := by simpa using htypes
  obtain ⟨result, hname, htype⟩ := exists_ok hname
  obtain ⟨type, rfl, htype⟩ := exists_ok htype
  obtain rfl := of_decide_eq_true htype
  obtain ⟨struct, s', hstruct, hrun, -, htwice, -⟩ := @structLiteral_diagnosed (Repeated.ctx decls) _ ⟨2⟩ _ _ _ _ _ _ _
    hdecls hvalues hquiet hname
  refine ⟨decls, struct, s', hdecls, hstruct, hrun, htwice fun field => ?_⟩
  exact (List.count_le_length ..).trans (by decide)

/-- A field named a third time is not reported against where it was named first. -/
theorem Repeated.thrice_differs : ∃ decls struct s', Declarations.collect [program] = .ok decls ∧
    decls.struct? ⟨0⟩ = some struct ∧
    (inferExpr (ctx decls) (literal 3) : Check _).run (start decls) = .ok (.aggregate ⟨0⟩, s') ∧
    s'.errors ≠ literalErrors (ctx decls) ⟨0⟩ struct head? ((inits 3).map (·, .int 32)) default := by
  have htest : ((Declarations.collect [program]).toOption.any fun decls => (decls.struct? ⟨0⟩).any fun struct =>
      ((inferExpr (ctx decls) (literal 3) : Check _).run (start decls)).toOption.any fun r => r.1 = .aggregate ⟨0⟩ &&
        r.2.errors ≠ literalErrors (ctx decls) ⟨0⟩ struct head? ((inits 3).map (·, .int 32)) default) = true := by
    decide +kernel
  obtain ⟨decls, hdecls, htest⟩ := exists_ok htest
  obtain ⟨struct, hstruct, htest⟩ := (Option.any_eq_true ..).mp htest
  obtain ⟨⟨type, s'⟩, hrun, htest⟩ := exists_ok htest
  obtain ⟨rfl, hne⟩ : type = .aggregate ⟨0⟩ ∧ _ := by simpa using htest
  exact ⟨decls, struct, s', hdecls, hstruct, hrun, hne⟩

end SsaCompiler
