import JavaSmith.Text.Blank

/-! The knobs that shape a generated class, and settings of all of them. Settings are a row of values in
which a knob's place is that of its declaration, and carry the proof that every knob is within its
range: nothing downstream has to check a value again. -/
namespace JavaSmith

inductive Knob where
  | fieldProbability | variableProbability | methodProbability | methodCallProbability
  | assignmentProbability | printProbability | controlFlowProbability | elseProbability
  | staticProbability | finalProbability | externalCallProbability | binaryOpProbability
  | castProbability | stateReuseProbability
  | forShare | whileShare | doWhileShare | ifShare
  | maxProgramLength | maxMethodLength | maxControlFlowDepth | maxLoopIterations
  | maxMethodParameters | maxMethods | maxArrayDimensions | maxArrayDimensionSize
  | maxExpressionDepth
  | allowArithmeticOverflow | allowDivideByZero
  deriving DecidableEq, Inhabited

namespace Knob

def all : List Knob :=
  [fieldProbability, variableProbability, methodProbability, methodCallProbability,
   assignmentProbability, printProbability, controlFlowProbability, elseProbability,
   staticProbability, finalProbability, externalCallProbability, binaryOpProbability,
   castProbability, stateReuseProbability,
   forShare, whileShare, doWhileShare, ifShare,
   maxProgramLength, maxMethodLength, maxControlFlowDepth, maxLoopIterations,
   maxMethodParameters, maxMethods, maxArrayDimensions, maxArrayDimensionSize,
   maxExpressionDepth,
   allowArithmeticOverflow, allowDivideByZero]

/-- The place of the knob in its declaration. -/
def index (k : Knob) : Fin all.length := ⟨k.ctorIdx, by cases k <;> decide⟩

theorem all_index (k : Knob) : all[k.index] = k := by cases k <;> rfl

theorem index_all (i : Fin all.length) : all[i].index = i := by
  revert i
  decide

theorem index_inj {k k' : Knob} : k.index = k'.index ↔ k = k' := by
  refine ⟨fun same => ?_, congrArg index⟩
  have listed : all[k.index] = all[k'.index] := congrArg (fun i : Fin all.length => all[i]) same
  rwa [all_index, all_index] at listed

theorem mem_all (k : Knob) : k ∈ all := List.mem_of_getElem (all_index k)

structure Spec where
  name : String
  default : Nat
  least : Nat
  greatest : Nat

def Spec.percentage (name : String) (default : Nat) : Spec := ⟨name, default, 0, 100⟩

/-- The largest array that the two array knobs allow together has about a million elements. -/
def spec : Knob → Spec
  | fieldProbability => .percentage "field_probability" 20
  | variableProbability => .percentage "variable_probability" 30
  | methodProbability => .percentage "method_probability" 30
  | methodCallProbability => .percentage "method_call_probability" 20
  | assignmentProbability => .percentage "assignment_probability" 30
  | printProbability => .percentage "print_probability" 20
  | controlFlowProbability => .percentage "control_flow_probability" 15
  | elseProbability => .percentage "else_probability" 50
  | staticProbability => .percentage "static_probability" 30
  | finalProbability => .percentage "final_probability" 20
  | externalCallProbability => .percentage "external_call_probability" 20
  | binaryOpProbability => .percentage "binary_op_probability" 30
  | castProbability => .percentage "cast_probability" 10
  | stateReuseProbability => .percentage "state_reuse_probability" 50
  | forShare => .percentage "for_share" 40
  | whileShare => .percentage "while_share" 20
  | doWhileShare => .percentage "do_while_share" 10
  | ifShare => .percentage "if_share" 30
  | maxProgramLength => ⟨"max_program_length", 40, 0, 1000⟩
  | maxMethodLength => ⟨"max_method_length", 12, 0, 1000⟩
  | maxControlFlowDepth => ⟨"max_control_flow_depth", 3, 0, 100⟩
  | maxLoopIterations => ⟨"max_loop_iterations", 5, 1, 1000⟩
  | maxMethodParameters => ⟨"max_method_parameters", 4, 0, 20⟩
  | maxMethods => ⟨"max_methods", 8, 0, 200⟩
  | maxArrayDimensions => ⟨"max_array_dimensions", 3, 1, 4⟩
  | maxArrayDimensionSize => ⟨"max_array_dimension_size", 4, 1, 32⟩
  | maxExpressionDepth => ⟨"max_expression_depth", 4, 0, 100⟩
  | allowArithmeticOverflow => ⟨"allow_arithmetic_overflow", 0, 0, 1⟩
  | allowDivideByZero => ⟨"allow_divide_by_zero", 0, 0, 1⟩

def name (k : Knob) : String := k.spec.name

/-- Why a knob, or a value for one, was not understood. The value is quoted as it was given. -/
inductive Fault where
  | unknown (name : String)
  | invalid (knob : Knob) (value : String)
  deriving DecidableEq, Inhabited

/-- Reads a knob's name, in which dashes may stand for underscores. -/
def ofName (s : String) : Except Fault Knob :=
  let canonical := String.ofList ((Text.trimmed s.toList).map fun c => if c = '-' then '_' else c)
  match all.find? (·.name == canonical) with
  | some k => .ok k
  | none => .error (.unknown s)

def InRange (k : Knob) (value : Nat) : Prop := k.spec.least ≤ value ∧ value ≤ k.spec.greatest

instance (k : Knob) (value : Nat) : Decidable (k.InRange value) := by
  unfold InRange; infer_instance

theorem inRange_default (k : Knob) : k.InRange k.spec.default := by
  cases k <;> decide

end Knob

/-- A value for every knob, at the knob's place. -/
structure Knobs where
  values : Vector Nat Knob.all.length
  inRange : ∀ k : Knob, k.InRange values[k.index]

namespace Knobs

def get (knobs : Knobs) (k : Knob) : Nat := knobs.values[k.index]

@[ext] theorem ext {a b : Knobs} (h : ∀ k, a.get k = b.get k) : a = b := by
  obtain ⟨v, hv⟩ := a
  obtain ⟨w, hw⟩ := b
  have same (i : Fin Knob.all.length) : v[i] = w[i] := Knob.index_all i ▸ h Knob.all[i]
  obtain rfl : v = w := Vector.ext fun i inside => same ⟨i, inside⟩
  rfl

/-- Values in the order in which the knobs are listed. -/
def row (value : Knob → Nat) : Vector Nat Knob.all.length :=
  ⟨(Knob.all.map value).toArray, by simp⟩

theorem getElem_row (value : Knob → Nat) (k : Knob) : (row value)[k.index] = value k := by
  have listed : (row value)[k.index] = value Knob.all[k.index] := by simp [row]
  rw [listed, Knob.all_index]

def ofValues (value : Knob → Nat) (h : ∀ k : Knob, k.InRange (value k)) : Knobs where
  values := row value
  inRange k := (getElem_row value k).symm ▸ h k

@[simp] theorem get_ofValues (value : Knob → Nat) (h : ∀ k : Knob, k.InRange (value k)) (k : Knob) :
    (ofValues value h).get k = value k :=
  getElem_row value k

def default : Knobs := .ofValues (·.spec.default) Knob.inRange_default

theorem get_default (k : Knob) : default.get k = k.spec.default := get_ofValues ..

instance : Inhabited Knobs := ⟨default⟩

def probability (knobs : Knobs) (k : Knob) : Nat := min (knobs.get k) 100

def flag (knobs : Knobs) (k : Knob) : Bool := knobs.get k != 0

theorem getElem_set (values : Vector Nat Knob.all.length) (k k' : Knob) (value : Nat) :
    (values.set k.index value)[k'.index] = if k' = k then value else values[k'.index] := by
  have places : k.index.val = k'.index.val ↔ k' = k := by
    rw [Fin.val_inj, Knob.index_inj, eq_comm]
  simp [Vector.getElem_set, places]

/-- The same settings with one knob at a value known to be in its range. -/
def put (knobs : Knobs) (k : Knob) (value : Nat) (h : k.InRange value) : Knobs where
  values := knobs.values.set k.index value
  inRange k' := by
    rw [getElem_set]
    split
    · next same => exact same ▸ h
    · exact knobs.inRange k'

theorem get_put {knobs : Knobs} {k : Knob} {value : Nat} (h : k.InRange value) (k' : Knob) :
    (knobs.put k value h).get k' = if k' = k then value else knobs.get k' :=
  getElem_set ..

abbrev Step := EStateM Knob.Fault Knobs Unit

/-- The range is looked at before anything is changed. -/
def set (k : Knob) (value : Nat) : Step := do
  if h : k.InRange value then modify (·.put k value h)
  else throw (.invalid k (toString value))

/-- The settings that the step makes of a copy. -/
def Step.onCopy (step : Step) (knobs : Knobs) : Except Knob.Fault Knobs :=
  match step knobs with
  | .ok _ knobs => .ok knobs
  | .error fault _ => .error fault

/-- Values are 32-bit words. -/
def valueLimit : Nat := UInt32.size

/-- Sets the knob to the number that stands for its value in an assignment. -/
def give (k : Knob) (given : List Char) : Step :=
  match Text.unsigned? valueLimit (Text.trimmed given) with
  | none => throw (.invalid k (String.ofList given))
  | some value => set k value

/-- Carries out `name=value`. The text up to the first equals sign is the name. -/
def assign (assignment : String) : Step :=
  let cs := assignment.toList
  match cs.dropWhile (· != '=') with
  | [] => throw (.unknown assignment)
  | _ :: given => do
    let k ← MonadExcept.ofExcept (Knob.ofName (String.ofList (cs.takeWhile (· != '='))))
    give k given

/-- Carries out assignments from left to right, beginning at the defaults. -/
def ofAssignments (assignments : List String) : Except Knob.Fault Knobs :=
  Step.onCopy (forM assignments assign) default

def changed (knobs : Knobs) : List (Knob × Nat) :=
  Knob.all.filterMap fun k => if knobs.get k = k.spec.default then none else some (k, knobs.get k)

end Knobs
end JavaSmith
