import SsaCompiler.Proofs.Extending.Compiling
import SsaCompiler.Proofs.Interning.Checking

/-!
# Sessions

A session compiles units with one interner. It collects and declares the items first, and then has all
units worked on at the same time. The workers' requests to the interner come in any order, and a worker
installs the bodies of its unit in one step.

Neither the order of the steps nor what was interned before can be seen: if one run ends, then every
other run can be brought to an end, and it ends with the same clashes, the same report of each unit and
the same module (`Session.Runs.outcome_eq`), which are those of `compile`.
-/

namespace SsaCompiler

open List
open Compilation (addUnits define)

variable {units : List SourceUnit} {moduleName : String} {outcome : Outcome}

/-! ## Steps -/

/-- Where the work on a unit stands. -/
inductive Worker where
  | working (job : Job (List Diagnostic × List (FuncId × FunctionBody)))
  | finished (report : List Diagnostic)

/-- A session in which units are compiled. -/
inductive Session where
  | collecting (names : Interner) (job : Job (Declarations Symbol))
  | working (names : Interner) (compilation : Compilation Symbol) (clashes : List Diagnostic)
    (workers : List Worker)

/-- What a compilation shows of itself. -/
structure Outcome where
  clashes : List Diagnostic
  reports : List (List Diagnostic)
  finish : Except Fault (Except Diagnostic IrModule)

def Outcome.result (outcome : Outcome) : Except Fault (Except (List Diagnostic) IrModule) := do
  match outcome.clashes ++ outcome.reports.flatten with
  | [] =>
    match ← outcome.finish with
    | .ok mod => return .ok mod
    | .error diagnostic => return .error [diagnostic]
  | diagnostics => return .error diagnostics

namespace Session

/-- A session about to compile units, with an interner that may have been used before. -/
def start (names : Interner) (units : List SourceUnit) : Session :=
  .collecting names (Declarations.collectWith units)

inductive Step (moduleName : String) (units : List SourceUnit) : Session → Session → Prop
  | collect {names names' : Interner} {job job' : Job (Declarations Symbol)} :
    Job.Step names job names' job' →
    Step moduleName units (.collecting names job) (.collecting names' job')
  | declare {names : Interner} {decls : Declarations Symbol} {compilation : Compilation Symbol}
    {clashes : List Diagnostic} :
    Compilation.declareItems moduleName units decls = .ok (compilation, clashes) →
    Step moduleName units (.collecting names (.done decls)) (.working names compilation clashes
      (units.zipIdx.map fun (source, index) => .working (compilation.checkAndLower ⟨index⟩ source)))
  | request {names names' : Interner} {compilation : Compilation Symbol} {clashes : List Diagnostic}
    {before after : List Worker} {job job' : Job (List Diagnostic × List (FuncId × FunctionBody))} :
    Job.Step names job names' job' →
    Step moduleName units (.working names compilation clashes (before ++ .working job :: after))
      (.working names' compilation clashes (before ++ .working job' :: after))
  | install {names : Interner} {compilation : Compilation Symbol} {clashes : List Diagnostic}
    {before after : List Worker} {report : List Diagnostic} {bodies : List (FuncId × FunctionBody)}
    {builder : ModuleBuilder} :
    define bodies compilation.builder = .ok builder →
    Step moduleName units (.working names compilation clashes (before ++ .working (.done (report, bodies)) :: after))
      (.working names { compilation with builder := builder } clashes (before ++ .finished report :: after))

def Runs (moduleName : String) (units : List SourceUnit) : Session → Session → Prop :=
  Relation.ReflTransGen (Step moduleName units)

def EndsWith (session : Session) (outcome : Outcome) : Prop :=
  ∃ names compilation, session = .working names compilation outcome.clashes (outcome.reports.map .finished) ∧
    compilation.finish = outcome.finish

end Session

/-! ## Bodies in any order -/

theorem ModuleBuilder.define_comm {builder next after : ModuleBuilder} {id id' : FuncId} {body body' : FunctionBody}
    (h : builder.define id body = .ok (.ok (), next)) (h' : next.define id' body' = .ok (.ok (), after)) :
    ∃ next', builder.define id' body' = .ok (.ok (), next') ∧ next'.define id body = .ok (.ok (), after) := by
  obtain ⟨function, hf, hx, hb, rfl⟩ := define_eq_ok.mp h
  obtain ⟨function', hf', hx', hb', rfl⟩ := define_eq_ok.mp h'
  have hne : id.index ≠ id'.index := by
    intro he
    rw [← he, Array.getElem?_setIfInBounds_self_of_lt (lt_of_getElem? hf)] at hf'
    cases hf'
    cases hb'
  rw [Array.getElem?_setIfInBounds_ne hne] at hf'
  refine ⟨_, define_eq_ok.mpr ⟨function', hf', hx', hb', rfl⟩, ?_⟩
  refine define_eq_ok.mpr ⟨function, ?_, hx, hb, ?_⟩
  · dsimp only
    rwa [Array.getElem?_setIfInBounds_ne hne.symm]
  · dsimp only [IrModule.setBody]
    rw [Array.setIfInBounds_comm _ _ hne]

namespace Compilation

variable {builder after : ModuleBuilder} {bodies bodies' : List (FuncId × FunctionBody)}

theorem define_append : define (bodies ++ bodies') builder = .ok after ↔
    ∃ next, define bodies builder = .ok next ∧ define bodies' next = .ok after := by
  induction bodies generalizing builder with
  | nil => simp [define]
  | cons p rest ih =>
    obtain ⟨id, body⟩ := p
    rw [cons_append]
    simp only [define_cons, ih]
    constructor
    · rintro ⟨next, hnext, last, hlast, h⟩
      exact ⟨last, ⟨next, hnext, hlast⟩, h⟩
    · rintro ⟨last, ⟨next, hnext, hlast⟩, h⟩
      exact ⟨next, hnext, last, hlast, h⟩

theorem define_perm (hp : bodies.Perm bodies') (h : define bodies builder = .ok after) :
    define bodies' builder = .ok after := by
  induction hp generalizing builder with
  | nil => exact h
  | cons p _ ih =>
    obtain ⟨next, hnext, h⟩ := define_cons.mp h
    exact define_cons.mpr ⟨next, hnext, ih h⟩
  | swap p q rest =>
    obtain ⟨next, hnext, h⟩ := define_cons.mp h
    obtain ⟨last, hlast, h⟩ := define_cons.mp h
    obtain ⟨next', hnext', hlast'⟩ := ModuleBuilder.define_comm hnext hlast
    exact define_cons.mpr ⟨next', hnext', define_cons.mpr ⟨last, hlast', h⟩⟩
  | trans _ _ ih ih' => exact ih' (ih h)

end Compilation

/-! ## What workers do -/

def Compilation.work (compilation : Compilation) (unit : SourceUnit × Nat) :
    Except Fault (List Diagnostic × List (FuncId × FunctionBody)) :=
  compilation.checkAndLower ⟨unit.2⟩ unit.1

theorem Compilation.addUnits_eq_ok {base compilation : Compilation} {units : List (SourceUnit × Nat)}
    {builder : ModuleBuilder} {diagnostics : List Diagnostic} :
    addUnits units { base with builder := builder } = .ok (diagnostics, compilation) ↔ ∃ works last,
      units.mapM base.work = .ok works ∧ define (works.flatMap (·.2)) builder = .ok last ∧
        diagnostics = works.flatMap (·.1) ∧ compilation = { base with builder := last } := by
  induction units generalizing builder diagnostics with
  | nil =>
    constructor
    · intro h
      cases h
      exact ⟨[], builder, rfl, rfl, rfl, rfl⟩
    · rintro ⟨works, last, hworks, hdefine, rfl, rfl⟩
      cases hworks
      cases hdefine
      rfl
  | cons p rest ih =>
    obtain ⟨source, index⟩ := p
    have hsame : (checkAndLower { base with builder := builder } ⟨index⟩ source : Except Fault _) =
        base.work (source, index) := rfl
    simp only [addUnits, addUnit, mapM_cons, bind_eq_ok, pure_eq_ok]
    constructor
    · rintro ⟨_, ⟨⟨report, bodies⟩, hwork, next, hnext, rfl⟩, ⟨others, _⟩, hrest, hend⟩
      cases hend
      obtain ⟨works, last, hworks, hdefine, rfl, rfl⟩ := ih.mp hrest
      exact ⟨_, last, ⟨_, hwork, works, hworks, rfl⟩, define_append.mpr ⟨next, hnext, hdefine⟩, rfl, rfl⟩
    · rintro ⟨_, last, ⟨⟨report, bodies⟩, hwork, works, hworks, rfl⟩, hdefine, rfl, rfl⟩
      obtain ⟨next, hnext, hdefine⟩ := define_append.mp hdefine
      exact ⟨_, ⟨_, hwork, next, hnext, rfl⟩, _, ih.mpr ⟨works, last, hworks, hdefine, rfl, rfl⟩, rfl⟩

/-- The workers of units do what is done for the units one after another. Listed are the bodies that
have been installed, in the order of the units. -/
inductive Follow (base : Compilation) (names : Interner) :
    List (SourceUnit × Nat) → List Worker → List (FuncId × FunctionBody) → Prop
  | nil : Follow base names [] [] []
  | working {source : SourceUnit} {index : Nat} {units : List (SourceUnit × Nat)}
    {job : Job (List Diagnostic × List (FuncId × FunctionBody))} {workers : List Worker}
    {installed : List (FuncId × FunctionBody)} :
    Job.Gives (base.work (source, index)) (fun _ => (· = ·)) job names →
    Follow base names units workers installed →
    Follow base names ((source, index) :: units) (.working job :: workers) installed
  | finished {source : SourceUnit} {index : Nat} {units : List (SourceUnit × Nat)} {report : List Diagnostic}
    {bodies : List (FuncId × FunctionBody)} {workers : List Worker} {installed : List (FuncId × FunctionBody)} :
    base.work (source, index) = .ok (report, bodies) →
    Follow base names units workers installed →
    Follow base names ((source, index) :: units) (.finished report :: workers) (bodies ++ installed)

namespace Follow

variable {base : Compilation} {names names' : Interner} {units : List (SourceUnit × Nat)}
  {workers before after : List Worker} {installed : List (FuncId × FunctionBody)}
  {job job' : Job (List Diagnostic × List (FuncId × FunctionBody))}

theorem grow (h : Follow base names units workers installed) (hg : names.Grows names') :
    Follow base names' units workers installed := by
  induction h with
  | nil => exact .nil
  | working hjob _ ih => exact .working (hjob.grow hg) ih
  | finished hdone _ ih => exact .finished hdone ih

theorem request (h : Follow base names units (before ++ .working job :: after) installed)
    (hs : Job.Step names job names' job') : Follow base names' units (before ++ .working job' :: after) installed := by
  induction before generalizing units installed with
  | nil =>
    cases h with
    | working hjob hrest => exact .working (hjob.step hs) (hrest.grow hs.grows)
  | cons worker before ih =>
    cases h with
    | working hjob hrest => exact .working (hjob.grow hs.grows) (ih hrest)
    | finished hdone hrest => exact .finished hdone (ih hrest)

theorem install {report : List Diagnostic} {bodies : List (FuncId × FunctionBody)}
    (h : Follow base names units (before ++ .working (.done (report, bodies)) :: after) installed) :
    ∃ installed', Follow base names units (before ++ .finished report :: after) installed' ∧
      (installed ++ bodies).Perm installed' := by
  induction before generalizing units installed with
  | nil =>
    cases h with
    | working hjob hrest =>
      obtain ⟨_, hdone, rfl⟩ := hjob.answer
      exact ⟨_, .finished hdone hrest, perm_append_comm⟩
  | cons worker before ih =>
    cases h with
    | working hjob hrest =>
      obtain ⟨installed', hrest, hp⟩ := ih hrest
      exact ⟨installed', .working hjob hrest, hp⟩
    | finished hdone hrest =>
      obtain ⟨installed', hrest, hp⟩ := ih hrest
      refine ⟨_, .finished hdone hrest, ?_⟩
      rw [append_assoc]
      exact hp.append_left _

theorem works {reports : List (List Diagnostic)} (h : Follow base names units (reports.map .finished) installed) :
    ∃ works, units.mapM base.work = .ok works ∧ reports = works.map (·.1) ∧ installed = works.flatMap (·.2) := by
  induction reports generalizing units installed with
  | nil =>
    cases h
    exact ⟨[], rfl, rfl, rfl⟩
  | cons report reports ih =>
    cases h with
    | @finished _ _ _ _ bodies _ _ hdone hrest =>
      obtain ⟨works, hworks, rfl, rfl⟩ := ih hrest
      refine ⟨(report, bodies) :: works, ?_, rfl, rfl⟩
      rw [mapM_cons, hdone, hworks]
      rfl

theorem start {compilation : Compilation Symbol} (h : base.Keyed names compilation) :
    Follow base names units (units.map fun (source, index) => .working (compilation.checkAndLower ⟨index⟩ source)) [] := by
  induction units with
  | nil => exact .nil
  | cons p rest ih => exact .working (Compilation.gives_checkAndLower h.decls h.items) ih

theorem exists_gives (h : Follow base names units (before ++ .working job :: after) installed) :
    ∃ unit ∈ units, Job.Gives (base.work unit) (fun _ => (· = ·)) job names := by
  induction before generalizing units installed with
  | nil =>
    cases h with
    | working hjob hrest => exact ⟨_, .head _, hjob⟩
  | cons worker before ih =>
    cases h with
    | working _ hrest | finished _ hrest =>
      obtain ⟨unit, hmem, hjob⟩ := ih hrest
      exact ⟨unit, .tail _ hmem, hjob⟩

theorem exists_pending {works : List (List Diagnostic × List (FuncId × FunctionBody))}
    (h : Follow base names units workers installed)
    (hall : Forall₂ (fun unit work => base.work unit = .ok work) units works) :
    ∃ pending, (works.flatMap (·.2)).Perm (installed ++ pending) := by
  induction h generalizing works with
  | nil =>
    cases hall
    exact ⟨[], .refl _⟩
  | working _ _ ih =>
    cases hall with
    | cons _ hall =>
      obtain ⟨pending, hp⟩ := ih hall
      exact ⟨_, (hp.append_left _).trans (perm_append_comm_assoc ..)⟩
  | finished hdone _ ih =>
    cases hall with
    | cons hwork hall =>
      obtain ⟨pending, hp⟩ := ih hall
      cases hdone.symm.trans hwork
      refine ⟨pending, ?_⟩
      rw [append_assoc]
      exact hp.append_left _

end Follow

/-! ## Runs -/

def Outcome.inOrder (moduleName : String) (units : List SourceUnit) : Except Fault Outcome := do
  let (compilation, clashes) ← Compilation.start moduleName units
  let works ← units.zipIdx.mapM compilation.work
  let builder ← define (works.flatMap (·.2)) compilation.builder
  return ⟨clashes, works.map (·.1), Compilation.finish { compilation with builder := builder }⟩

theorem Outcome.inOrder_eq_ok : inOrder moduleName units = .ok outcome ↔ ∃ base works builder,
      Compilation.start moduleName units = .ok (base, outcome.clashes) ∧ units.zipIdx.mapM base.work = .ok works ∧
        define (works.flatMap (·.2)) base.builder = .ok builder ∧ outcome.reports = works.map (·.1) ∧
        outcome.finish = Compilation.finish { base with builder := builder } := by
  simp only [inOrder, bind_eq_ok, pure_eq_ok]
  constructor
  · rintro ⟨⟨base, clashes⟩, hstart, works, hworks, builder, hdefine, rfl⟩
    exact ⟨base, works, builder, hstart, hworks, hdefine, rfl, rfl⟩
  · rintro ⟨base, works, builder, hstart, hworks, hdefine, hreports, hfinish⟩
    refine ⟨(base, outcome.clashes), hstart, works, hworks, builder, hdefine, ?_⟩
    rw [← hreports, ← hfinish]

namespace Session

variable {session session' : Session}
variable {compilation : Compilation Symbol} {clashes : List Diagnostic}
variable {before after : List Worker} {names : Interner}

/-- A session does what is done for the units one after another. -/
def Sound (moduleName : String) (units : List SourceUnit) : Session → Prop
  | .collecting names job => Job.Gives (Declarations.collect units) (fun later => Declarations.Keyed later) job names
  | .working names compilation clashes workers => ∃ base installed,
    Compilation.start moduleName units = .ok (base, clashes) ∧ Follow base names units.zipIdx workers installed ∧
      define installed base.builder = .ok compilation.builder

theorem Step.sound (h : Step moduleName units session session') (hs : session.Sound moduleName units) :
    session'.Sound moduleName units := by
  cases h with
  | collect hstep => exact Job.Gives.step hs hstep
  | declare hdeclare =>
    obtain ⟨decls, hcollect, hkeyed⟩ := Job.Gives.answer hs
    have hboth := Compilation.declareItems_keyed hkeyed moduleName units
    rw [hdeclare] at hboth
    rcases hboth.cases with ⟨_, -, hfault⟩ | ⟨⟨base, _⟩, _, hbase, heq, hpair⟩
    · cases hfault
    · cases heq
      obtain ⟨hpair, rfl⟩ := hpair
      refine ⟨base, [], ?_, .start hpair, by rw [hpair.builder]; rfl⟩
      rw [Compilation.start, hcollect]
      exact hbase
  | request hstep =>
    obtain ⟨base, installed, hstart, hfollow, hdefine⟩ := hs
    exact ⟨base, installed, hstart, hfollow.request hstep, hdefine⟩
  | install hinstall =>
    obtain ⟨base, installed, hstart, hfollow, hdefine⟩ := hs
    obtain ⟨installed', hfollow, hp⟩ := hfollow.install
    exact ⟨base, installed', hstart, hfollow,
      Compilation.define_perm hp (Compilation.define_append.mpr ⟨_, hdefine, hinstall⟩)⟩

theorem Runs.sound (h : Runs moduleName units session session') (hs : session.Sound moduleName units) :
    session'.Sound moduleName units := by
  induction h with
  | refl => exact hs
  | tail _ hstep ih => exact hstep.sound ih

theorem sound_start : (start names units).Sound moduleName units :=
  Declarations.gives_collectWith

theorem Sound.inOrder (h : session.Sound moduleName units) (he : session.EndsWith outcome) :
    Outcome.inOrder moduleName units = .ok outcome := by
  obtain ⟨names, compilation, rfl, hfinish⟩ := he
  obtain ⟨base, installed, hstart, hfollow, hdefine⟩ := h
  obtain ⟨works, hworks, hreports, rfl⟩ := hfollow.works
  exact Outcome.inOrder_eq_ok.mpr ⟨base, works, _, hstart, hworks, hdefine, hreports, hfinish.symm⟩

theorem Sound.finishWorker {job : Job (List Diagnostic × List (FuncId × FunctionBody))}
    (h : (Session.working names compilation clashes (before ++ .working job :: after)).Sound moduleName units)
    (ho : Outcome.inOrder moduleName units = .ok outcome) : ∃ names' compilation' report,
      Runs moduleName units (.working names compilation clashes (before ++ .working job :: after))
        (.working names' compilation' clashes (before ++ .finished report :: after)) := by
  obtain ⟨base, installed, hstart, hfollow, hdefine⟩ := id h
  obtain ⟨base', works, builder, hstart', hworks, hall, -, -⟩ := Outcome.inOrder_eq_ok.mp ho
  obtain ⟨rfl, -⟩ := Prod.mk.inj (Except.ok.inj (hstart.symm.trans hstart'))
  obtain ⟨unit, hmem, hgives⟩ := hfollow.exists_gives
  obtain ⟨names', job', hrun, hend⟩ := hgives.runs
  have hrun : Runs moduleName units (.working names compilation clashes (before ++ .working job :: after))
      (.working names' compilation clashes (before ++ .working job' :: after)) :=
    Relation.ReflTransGen.lift (fun p : Interner × Job _ => working p.1 compilation clashes
      (before ++ .working p.2 :: after)) (fun _ _ hstep => .request hstep) _ _ hrun
  rcases hend with ⟨⟨report, bodies⟩, rfl⟩ | ⟨e, rfl, hfault⟩
  · obtain ⟨base', installed, hstart', hfollow, hdefine⟩ := hrun.sound h
    cases hstart.symm.trans hstart'
    obtain ⟨installed', hfollow, hp⟩ := hfollow.install
    obtain ⟨pending, hpending⟩ := hfollow.exists_pending (mapM_eq_ok hworks)
    obtain ⟨_, hnext, -⟩ := Compilation.define_append.mp (Compilation.define_perm hpending hall)
    obtain ⟨_, hbefore, hinstall⟩ := Compilation.define_append.mp (Compilation.define_perm hp.symm hnext)
    cases hdefine.symm.trans hbefore
    exact ⟨_, _, _, hrun.tail (.install hinstall)⟩
  · obtain ⟨_, -, hok⟩ := forall₂_exists_right (mapM_eq_ok hworks) hmem
    cases hfault.symm.trans hok

theorem Sound.finishWorkers (reports : List (List Diagnostic)) {workers : List Worker}
    (h : (Session.working names compilation clashes (reports.map .finished ++ workers)).Sound moduleName units)
    (ho : Outcome.inOrder moduleName units = .ok outcome) : ∃ names' compilation', ∃ reports' : List (List Diagnostic),
      Runs moduleName units (.working names compilation clashes (reports.map .finished ++ workers))
        (.working names' compilation' clashes (reports'.map .finished)) := by
  induction workers generalizing names compilation reports with
  | nil =>
    rw [append_nil]
    exact ⟨names, compilation, reports, .refl⟩
  | cons worker workers ih =>
    -- the first worker that may not have finished is finished, and counts among the first ones then
    have hnext {names : Interner} {compilation : Compilation Symbol} {report : List Diagnostic} :
        Session.working names compilation clashes (reports.map .finished ++ .finished report :: workers) =
          .working names compilation clashes ((reports ++ [report]).map .finished ++ workers) := by
      simp
    cases worker with
    | finished report =>
      rw [hnext] at h ⊢
      exact ih _ h
    | working job =>
      obtain ⟨names1, compilation1, report, hrun⟩ := h.finishWorker ho
      have hs := hrun.sound h
      rw [hnext] at hrun hs
      obtain ⟨names', compilation', reports', hrest⟩ := ih _ hs
      exact ⟨names', compilation', reports', hrun.trans hrest⟩

theorem Sound.completes (h : session.Sound moduleName units) (ho : Outcome.inOrder moduleName units = .ok outcome) :
    ∃ last, Runs moduleName units session last ∧ last.EndsWith outcome := by
  -- whatever it ends with is the outcome
  suffices ∃ names compilation clashes workers,
      Runs moduleName units session (.working names compilation clashes workers) by
    obtain ⟨names, compilation, clashes, workers, hrun⟩ := this
    have hs := hrun.sound h
    obtain ⟨names', compilation', reports, hrest⟩ := Sound.finishWorkers [] hs ho
    have hend : (Session.working names' compilation' clashes (reports.map .finished)).EndsWith
        ⟨clashes, reports, compilation'.finish⟩ := ⟨_, _, rfl, rfl⟩
    have hsame := (hrest.sound hs).inOrder hend
    cases hsame.symm.trans ho
    exact ⟨_, hrun.trans hrest, hend⟩
  cases session with
  | working names compilation clashes workers => exact ⟨_, _, _, _, .refl⟩
  | collecting names job =>
    obtain ⟨names', job', hrun, hend⟩ := Job.Gives.runs h
    have hrun : Runs moduleName units (.collecting names job) (.collecting names' job') :=
      Relation.ReflTransGen.lift (fun p : Interner × Job _ => collecting p.1 p.2)
        (fun _ _ hstep => .collect hstep) _ _ hrun
    obtain ⟨base, _, _, hstart, -⟩ := Outcome.inOrder_eq_ok.mp ho
    obtain ⟨decls, hcollect, hbase⟩ := bind_eq_ok.mp hstart
    rcases hend with ⟨decls', rfl⟩ | ⟨e, rfl, hfault⟩
    · obtain ⟨_, hcollect', hkeyed⟩ := Job.Gives.answer (hrun.sound h)
      cases hcollect.symm.trans hcollect'
      have hboth := Compilation.declareItems_keyed hkeyed moduleName units
      rw [hbase] at hboth
      rcases hboth.cases with ⟨_, hfault, -⟩ | ⟨_, _, _, hdeclare, -⟩
      · cases hfault
      · exact ⟨_, _, _, _, hrun.tail (.declare hdeclare)⟩
    · cases hfault.symm.trans hcollect

end Session

theorem Outcome.compile_eq (h : inOrder moduleName units = .ok outcome) :
    compile moduleName units = outcome.result := by
  obtain ⟨base, works, builder, hstart, hworks, hdefine, hreports, hfinish⟩ := inOrder_eq_ok.mp h
  have hunits : addUnits units.zipIdx base = .ok (outcome.reports.flatten, { base with builder := builder }) := by
    refine Compilation.addUnits_eq_ok.mpr ⟨works, builder, hworks, hdefine, ?_, rfl⟩
    rw [hreports]
    rfl
  unfold compile result
  rw [hstart, hfinish]
  show (addUnits units.zipIdx base >>= _) = _
  rw [hunits]
  rfl

theorem Outcome.exists_inOrder {result : Except (List Diagnostic) IrModule}
    (h : compile moduleName units = .ok result) : ∃ outcome, inOrder moduleName units = .ok outcome := by
  obtain ⟨⟨base, clashes⟩, hstart, h⟩ := bind_eq_ok.mp h
  obtain ⟨⟨diagnostics, compilation⟩, hunits, -⟩ := bind_eq_ok.mp h
  obtain ⟨works, builder, hworks, hdefine, -, -⟩ := Compilation.addUnits_eq_ok.mp hunits
  exact ⟨⟨_, _, _⟩, inOrder_eq_ok.mpr ⟨base, works, builder, hstart, hworks, hdefine, rfl, rfl⟩⟩

/-- Neither the order of steps nor what the interner was used for can be seen. If one run of a session
ends, all runs for the same units can be brought to an end, and end alike: with the same clashes, the
same diagnostics of each unit and the same module, which are those of the compilation unit by unit. -/
theorem Session.Runs.outcome_eq {moduleName : String} {units : List SourceUnit} {names names' : Interner}
    {session session' : Session} {outcome : Outcome}
    (h : Runs moduleName units (start names units) session) (he : session.EndsWith outcome)
    (h' : Runs moduleName units (start names' units) session') :
    (∀ outcome', session'.EndsWith outcome' → outcome' = outcome) ∧
      (∃ last, Runs moduleName units session' last ∧ last.EndsWith outcome) ∧
      compile moduleName units = outcome.result := by
  have horder := (h.sound sound_start).inOrder he
  have hsound := h'.sound sound_start
  refine ⟨fun outcome' he' => ?_, hsound.completes horder, Outcome.compile_eq horder⟩
  exact Except.ok.inj ((hsound.inOrder he').symm.trans horder)

/-- A fresh session and one that knows some of the names compile two units to the same module. -/
theorem Session.Runs.outcome_eq_countdown : ∃ session session' outcome mod,
    Runs "m" [Countdown.program, { Countdown.program with name := "n" }]
      (start .empty [Countdown.program, { Countdown.program with name := "n" }]) session ∧
    Runs "m" [Countdown.program, { Countdown.program with name := "n" }]
      (start ⟨["i", "countdown"]⟩ [Countdown.program, { Countdown.program with name := "n" }]) session' ∧
    session.EndsWith outcome ∧ session'.EndsWith outcome ∧ outcome.result = .ok (.ok mod) ∧
    mod.functions.size = 3 := by
  have hrun : ((compile "m" [Countdown.program, { Countdown.program with name := "n" }]).toOption.any
      fun result => result.toOption.any fun mod => decide (mod.functions.size = 3)) = true := by decide +kernel
  obtain ⟨result, hcompile, hrun⟩ := exists_ok hrun
  obtain ⟨mod, rfl, hsize⟩ := exists_ok hrun
  obtain ⟨outcome, horder⟩ := Outcome.exists_inOrder hcompile
  obtain ⟨session, h, he⟩ := sound_start.completes horder
  have hother : Runs "m" [Countdown.program, { Countdown.program with name := "n" }]
      (start ⟨["i", "countdown"]⟩ [Countdown.program, { Countdown.program with name := "n" }]) _ := .refl
  obtain ⟨-, ⟨session', h', he'⟩, hresult⟩ := outcome_eq h he hother
  exact ⟨session, session', outcome, mod, h, h', he, he', hresult.symm.trans hcompile, of_decide_eq_true hsize⟩

end SsaCompiler
