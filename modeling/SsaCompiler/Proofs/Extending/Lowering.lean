import SsaCompiler.Proofs.Extending.Declaring

/-!
# Lowering among further items

A function that is lowered without a fault is lowered to the same body if the items that it refers to
stand among others (`CheckedFunction.lower_of_agrees`). `Lower.Below` compares two steps: where the
first succeeds, the second does the same. Each control structure keeps it, and so do the leaves, which
look up items and types.
-/

namespace SsaCompiler

namespace Lower

/-! ## Comparing steps -/

section

variable {α β : Type}

/-- Where a step succeeds, another does the same. -/
def Below (step step' : Lower α) : Prop := ∀ ⦃s r s'⦄, Runs step s r s' → Runs step' s r s'

namespace Below

variable {x x' : Lower α} {condition condition' : Lower ValueId}
variable {type type' : Lower (Option IrType)} {f f' : α → Lower β} {isInfinite : Bool}

theorem refl {step : Lower α} : Below step step := fun _ _ _ h => h

theorem bind (hx : Below x x') (hf : ∀ a, Below (f a) (f' a)) : Below (x >>= f) (x' >>= f') := by
  intro s r s' hr
  rw [runs_bind] at hr ⊢
  rcases hr with ⟨a, s1, hr1, hr2⟩ | ⟨rfl, hr1⟩
  · exact .inl ⟨a, s1, hx hr1, hf a hr2⟩
  · exact .inr ⟨rfl, hx hr1⟩

theorem next (hf : ∀ a, Below (f a) (f' a)) : Below (x >>= f) (x >>= f') :=
  refl.bind hf

theorem first (hx : Below x x') : Below (x >>= f) (x' >>= f) :=
  hx.bind fun _ => refl

theorem attempt (h : Below x x') : Below (attempt x) (attempt x') := by
  intro s r s' hr
  rw [runs_attempt] at hr ⊢
  obtain ⟨r', hr', hr⟩ := hr
  exact ⟨r', h hr', hr⟩

/-! ## Control structures -/

theorem arm {block : BlockId} {x x' : Lower Lowered} (h : Below x x') : Below (arm block x) (arm block x') :=
  next fun _ => h.attempt.first

theorem logical {op : BinaryOp} {lhs lhs' rhs rhs' : Lower ValueId} (hl : Below lhs lhs') (hr : Below rhs rhs') :
    Below (logical op lhs rhs) (logical op lhs' rhs') :=
  hl.bind fun _ => next fun _ => next fun _ => next fun _ => next fun _ => next fun _ => hr.first.arm.first

theorem ifThen {x x' : Lower Lowered} (hc : Below condition condition') (hx : Below x x') (ht : Below type type') :
    Below (ifThen condition x type) (ifThen condition' x' type') :=
  hc.bind fun _ => next fun _ => next fun _ => next fun _ => next fun _ => hx.arm.bind fun _ => next fun _ => ht.first

theorem ifThenElse {x x' y y' : Lower Lowered} (hc : Below condition condition') (hx : Below x x') (hy : Below y y')
    (ht : Below type type') : Below (ifThenElse condition x y type) (ifThenElse condition' x' y' type') := by
  refine hc.bind fun _ => next fun _ => next fun _ => next fun _ => next fun _ => hx.arm.bind fun _ =>
    next fun _ => hy.arm.bind fun _ => next fun _ => ?_
  split
  · exact refl
  · exact next fun _ => ht.first

theorem loopEntry (hc : Below condition condition') :
    Below (loopEntry isInfinite condition) (loopEntry isInfinite condition') := by
  cases isInfinite with
  | true => exact refl
  | false => exact hc.first

theorem whileLoop {body body' : Lower Lowered} (hc : Below condition condition') (hb : Below body body') :
    Below (whileLoop isInfinite condition body) (whileLoop isInfinite condition' body') := by
  refine next fun _ => next fun _ => next fun _ => next fun _ => next fun _ => hc.loopEntry.attempt.bind fun entered => ?_
  cases entered with
  | none => exact refl
  | some block => exact next fun _ => hb.attempt.first

theorem inScope (h : Below x x') : Below (inScope x) (inScope x') :=
  next fun _ => h.attempt.first

end Below

end

theorem lockstep_below {items items' : ItemMap} {F : CheckedFunction} (h : items.Agrees items' F) :
    Lockstep items items' F fun {_} x x' => Below x x' where
  agrees := h
  pure _ := .refl
  bind := .bind
  fault _ := .refl
  answer hx hf := by
    intro s r s' hr
    rw [runs_answer_bind] at hr ⊢
    obtain ⟨a, ha, hr⟩ := hr
    exact ⟨a, hx a ha, hf a ha hr⟩
  get := .next
  emit _ := .refl
  modifyEnv _ := .refl
  inScope := .inScope
  logical _ := .logical
  ifThen hx hy _ := .ifThen hx hy
  ifThenElse hx hy hz _ := .ifThenElse hx hy hz
  whileLoop _ := .whileLoop
  breakLoop := .refl
  continueLoop := .refl
  ret _ := .refl

end Lower

/-- A function is lowered to the same body if its items stand among others. -/
theorem CheckedFunction.lower_of_agrees {items items' : ItemMap} {F : CheckedFunction} (h : items.Agrees items' F)
    {sig : FunctionSig} {root : Expr} {body : FunctionBody} (hl : F.lower items sig root = .ok body) :
    F.lower items' sig root = .ok body := by
  simp only [CheckedFunction.lower, bind_eq_ok] at hl ⊢
  obtain ⟨⟨r, s⟩, hr, hb⟩ := hl
  exact ⟨⟨r, s⟩, ((Lower.lockstep_below h).declareParams _).bind
    (fun _ => ((Lower.lockstep_below h).lowerExpr root).attempt.first) hr, hb⟩

end SsaCompiler
