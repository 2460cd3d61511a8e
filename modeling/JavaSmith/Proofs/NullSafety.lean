import JavaSmith.Proofs.Flows

/-! Null never reaches the class library. Its operations and constructors are given nothing but what is
made on the spot: texts, new objects and arrays, boxed values and what the library itself gives. A
variable of a type that has null is never handed to it, nor is an assignment or a call of a generated
method, since no one follows what those may hold. -/
namespace JavaSmith

open Generator

namespace Node

/-- Operands that must not be null: the receiver and the arguments of what the class library carries
out. -/
def guarded : Node → List ExprId
  | .call callee receiver args => if callee.method.isNone then receiver.toList ++ args else []
  | .construct _ args => args
  | _ => []

def neverNull : Node → Bool
  | .constant v => v != .null
  | .construct _ _ | .newArray _ _ | .binary _ _ _ => true
  | .call callee _ _ => callee.method.isNone
  | .read _ | .assign _ _ | .cast _ _ | .hole => false

end Node

theorem Ty.isNullable_eq_of_accepts {t u : Ty} (h : t.accepts u = true) :
    u.isNullable = t.isNullable := by
  cases nullable : t.isNullable with
  | true => exact isNullable_of_accepts h nullable
  | false => cases t <;> cases u <;> simp_all [accepts, isNullable, isReference]

theorem Declarations.declares_of_accepts {d : Declarations} {t : Ty} {v : Var}
    (h : t.accepts (d.typeOf v) = true) : d.Declares v := by
  by_contra unknown
  have void : d.typeOf v = .void := by
    cases v with
    | field id =>
      have none : d.fields[id]? = none := Array.getElem?_eq_none (Nat.le_of_not_lt unknown)
      simp only [typeOf, field, none]
      rfl
    | localVar id =>
      have none : d.locals[id]? = none := Array.getElem?_eq_none (Nat.le_of_not_lt unknown)
      simp only [typeOf, localVar, none]
      rfl
  rw [void, Ty.accepts_void] at h
  contradiction

namespace Program

/-- The expression has been made, and if its type has null its value is still none. -/
structure NotNull (p : Program) (e : ExprId) : Prop where
  inside : e < p.arena.size
  made : (p.typeOf e).isNullable = true → (p.node e).neverNull = true

def GuardsNull (p : Program) : Prop := ∀ e, ∀ a ∈ (p.node e).guarded, p.NotNull a

variable {p p' : Program} {e : ExprId} {node : Node} {t : Ty}

theorem NotNull.later (notNull : p.NotNull e) (h : p.Extends p') : p'.NotNull e where
  inside := Nat.lt_of_lt_of_le notNull.inside h.arena_size
  made := by
    rw [h.typeOf notNull.inside, h.node notNull.inside]
    exact notNull.made

theorem notNull_add (made : t.isNullable = true → node.neverNull = true) :
    (p.add node t).2.NotNull (p.add node t).1 where
  inside := by simp [add]
  made := by
    change ((p.add node t).2.typeOf p.arena.size).isNullable = true →
      ((p.add node t).2.node p.arena.size).neverNull = true
    rw [typeOf_add, node_add]
    exact made

theorem notNull_add_of_plain (plain : t.isNullable = false) :
    (p.add node t).2.NotNull (p.add node t).1 :=
  notNull_add fun nullable => by rw [plain] at nullable; contradiction

namespace GuardsNull

theorem of_arena (guards : p.GuardsNull) (arena : p'.arena = p.arena) : p'.GuardsNull := by
  intro e a member
  have same : p'.node = p.node := by
    unfold Program.node
    rw [arena]
  rw [same] at member
  obtain ⟨inside, made⟩ := guards e a member
  refine ⟨arena ▸ inside, ?_⟩
  unfold Program.typeOf at made ⊢
  rw [same, arena]
  exact made

theorem add (guards : p.GuardsNull) (given : ∀ a ∈ node.guarded, p.NotNull a) :
    (p.add node t).2.GuardsNull := by
  intro e a member
  rcases p.node_add_cases node t e with ⟨_, same⟩ | same
  · rw [same] at member
    exact (given a member).later (p.extends_add node t)
  · rw [same] at member
    exact (guards e a member).later (p.extends_add node t)

theorem addOther (guards : p.GuardsNull) (none : node.guarded = []) :
    (p.add node t).2.GuardsNull :=
  guards.add fun a member => by rw [none] at member; contradiction

theorem addAssignment (guards : p.GuardsNull) (v : Var) (source : ExprId) :
    (p.addAssignment v source).2.GuardsNull :=
  addOther (p := { p with declared := p.declared.setInitialized v }) (guards.of_arena rfl) rfl

theorem applied (guards : p.GuardsNull) {use : OperatorUse} {allow : Bool}
    (chosen : use.For allow t) (left right : ExprId) :
    (p.applied use t left right).2.GuardsNull ∧
      (p.applied use t left right).2.NotNull (p.applied use t left right).1 := by
  have whole : (p.applied use t left right).2.GuardsNull :=
    applied_induction (R := fun p _ => p.GuardsNull)
      (fun _ _ _ guards => ⟨guards.addOther rfl, fun _ guards => guards.addOther rfl⟩)
      (fun _ _ _ _ _ guards _ => guards.addOther rfl) guards guards use t
  refine ⟨whole, ?_⟩
  unfold Program.applied
  dsimp only
  split
  · exact notNull_add fun _ => rfl
  · next refused =>
    have plain : t.isNullable = false := by
      have numeric := (chosen.result.resolve_left refused).1
      cases t <;> first | rfl | contradiction
    exact notNull_add_of_plain plain

end GuardsNull
end Program

namespace Builder.Makes

variable {b : Builder} {args : List ExprId} {node : Node}

theorem neverNull (makes : b.Makes args node) (notNull : b.isNull = false) :
    node.neverNull = true := by
  cases makes with
  | null => contradiction
  | literal plain _ _ => exact bne_iff_ne.2 plain
  | _ => rfl

/-- A builder hands its arguments to the class library only if it refuses null, or if they are of a
primitive type. -/
theorem guarded {p : Program} (makes : b.Makes args node)
    (given : List.Forall₂ (fun t a => b.refusesNull = true ∨ t.isNullable = false → p.NotNull a)
      b.parameters args) : ∀ a ∈ node.guarded, p.NotNull a := by
  have all (safe : ∀ t ∈ b.parameters, b.refusesNull = true ∨ t.isNullable = false) :
      ∀ a ∈ args, p.NotNull a := by
    intro a member
    obtain ⟨i, inside, rfl⟩ := List.getElem_of_mem member
    have inside' : i < b.parameters.length := given.length_eq ▸ inside
    exact (List.forall₂_iff_get.1 given).2 i inside' inside (safe _ (List.getElem_mem inside'))
  cases makes with
  | null | literal | newArray => exact fun a none => by contradiction
  | boxing => exact all fun t member => .inr (by rw [List.mem_singleton.1 member]; rfl)
  | construct | onClass | onObject => exact all fun t _ => .inl rfl

end Builder.Makes

open Program

/-- Where null is forbidden or the type has none, what a run gives is no null. -/
def Task.WithoutNull (p : Program) : (task : Task) → task.Outcome → Prop
  | .expr site t, e => site.ctx.forbidsNull = true ∨ t.isNullable = false → p.NotNull e
  | .argument _ t forbidNull, e => forbidNull = true ∨ t.isNullable = false → p.NotNull e
  | .arguments _ forbidNull ts, es =>
    List.Forall₂ (fun t e => forbidNull = true ∨ t.isNullable = false → p.NotNull e) ts es
  | .callee _ _ wanted, m | .method _ _ wanted, m =>
    ∀ t, wanted = some t → t.isNullable = false →
      (p.declared.method m).returns.isNullable = false
  | .call _ wanted, e =>
    ∀ t, wanted = some t → t.isNullable = false → p.NotNull e
  | .ending _ _, _ | .bound _, _ | .statement _, _ | .block _ _, _ | .detour _ _, _ => True

theorem Scope.Offers.isNullable_eq_false {s : Scope} {d : Declarations} {ctx : Context} {v : Var}
    {t : Ty} (offered : s.Offers d ctx v) (accepted : t.accepts (d.typeOf v) = true)
    (safe : ctx.forbidsNull = true ∨ t.isNullable = false) : (d.typeOf v).isNullable = false :=
  safe.elim offered.nonnull (Ty.isNullable_eq_of_accepts accepted).trans

theorem Site.isNullable_eq_false {site : Site} {t : Ty} (allowed : site.forbidsNullOf t = false)
    (safe : site.ctx.forbidsNull = true ∨ t.isNullable = false) : t.isNullable = false := by
  rcases safe with forbidden | plain
  · rwa [Site.forbidsNullOf, forbidden, Bool.true_and] at allowed
  · exact plain

theorem Site.forbidsNull_withoutNull {site : Site} {forbidNull : Bool} (h : forbidNull = true) :
    (site.withoutNull forbidNull).ctx.forbidsNull = true := by
  rw [Site.withoutNull, if_pos h]
  rfl

theorem Generator.isNull_eq_false_of_mem_candidates {site : Site} {t : Ty} {b : Builder}
    {allowExternal : Bool} (offered : b ∈ candidates site t allowExternal)
    (safe : site.ctx.forbidsNull = true ∨ t.isNullable = false) : b.isNull = false := by
  obtain ⟨listed, kept⟩ := List.mem_filter.1 offered
  rcases safe with forbidden | plain
  · rw [forbidden, Bool.and_true, Bool.and_eq_true, Bool.not_eq_true'] at kept
    exact kept.1
  · cases b with
    | null =>
      obtain ⟨_, nullable⟩ := Catalog.serves_of_mem listed
      rw [plain] at nullable
      contradiction
    | _ => rfl

/-- A run hands nothing to the class library that may be null. -/
theorem Run.guardsNull {task : Task} {p p' : Program} {r : task.Outcome} (run : Run task p r p') :
    p.GuardsNull → p'.GuardsNull ∧ task.WithoutNull p' r := by
  induction run with
  | reuse _ offered _ accepted =>
    exact fun guards => ⟨guards.addOther rfl,
      fun safe => notNull_add_of_plain (offered.isNullable_eq_false accepted safe)⟩
  | exprCall _ allowed _ _ ih =>
    intro guards
    obtain ⟨guards, called⟩ := ih guards
    exact ⟨guards, fun safe => called _ rfl (Site.isNullable_eq_false allowed safe)⟩
  | assign _ allowed _ _ _ accepted run ih =>
    intro guards
    obtain ⟨guards, _⟩ := ih guards
    refine ⟨guards.addAssignment _ _, fun safe => notNull_add_of_plain ?_⟩
    rw [run.extends.typeOf_var (Declarations.declares_of_accepts accepted),
      Ty.isNullable_eq_of_accepts accepted]
    exact Site.isNullable_eq_false allowed safe
  | binary _ _ chosen _ _ ih ih' =>
    intro guards
    obtain ⟨guards, notNull⟩ := (ih' (ih guards).1).1.applied chosen _ _
    exact ⟨guards, fun _ => notNull⟩
  | cast _ _ _ _ _ ih =>
    exact fun guards => ⟨(ih guards).1.addOther rfl, fun _ => notNull_add_of_plain rfl⟩
  | build _ offered _ makes ih =>
    intro guards
    obtain ⟨guards, given⟩ := ih guards
    exact ⟨guards.add (makes.guarded given), fun safe => notNull_add fun _ =>
      makes.neverNull (isNull_eq_false_of_mem_candidates offered safe)⟩
  | exprAfter _ _ ihDetour ih | statementAfter _ _ _ ihDetour ih | detourTrans _ _ ihDetour ih =>
    exact fun guards => ih (ihDetour guards).1
  | argumentReuse offered _ accepted =>
    exact fun guards => ⟨guards.addOther rfl, fun safe => notNull_add_of_plain
      (offered.isNullable_eq_false accepted (safe.imp_left Site.forbidsNull_withoutNull))⟩
  | argumentExpr _ _ ih =>
    intro guards
    obtain ⟨guards, notNull⟩ := ih guards
    exact ⟨guards, fun safe => notNull (safe.imp_left Site.forbidsNull_withoutNull)⟩
  | argumentDirect _ own allowed none makes =>
    intro guards
    refine ⟨guards.add (makes.guarded (none ▸ .nil)), fun safe => notNull_add fun _ => ?_⟩
    refine makes.neverNull ?_
    rcases safe with rfl | plain
    · rwa [Bool.and_true] at allowed
    · cases makes with
      | null =>
        obtain ⟨_, nullable⟩ := Catalog.serves_of_mem_ownBuilders own
        rw [plain] at nullable
        contradiction
      | _ => rfl
  | argumentsNil => exact fun guards => ⟨guards, .nil⟩
  | argumentsCons _ rest ihFirst ihRest =>
    intro guards
    obtain ⟨guards, first⟩ := ihFirst guards
    obtain ⟨guards, others⟩ := ihRest guards
    exact ⟨guards, .cons (fun safe => (first safe).later rest.extends) others⟩
  | calleeFound callable accepted _ recorded =>
    intro guards
    refine ⟨guards.of_arena rfl, ?_⟩
    rintro t rfl plain
    have inside := (Declarations.mem_callable.1 callable).1
    have same := (extends_addCallEdge recorded).returns inside
    exact same ▸ (Ty.isNullable_eq_of_accepts accepted).trans plain
  | calleeNew _ _ _ ih => exact ih
  | call _ _ same _ _ ihCallee ihArgs =>
    intro guards
    subst same
    obtain ⟨guards, called⟩ := ihCallee guards
    exact ⟨(ihArgs guards).1.addOther rfl,
      fun t wanted plain => notNull_add_of_plain (called t wanted plain)⟩
  | @method _ _ _ _ _ q o _ b last _ body ending ihBody ihEnding =>
    intro guards
    have opened : o.program.GuardsNull := guards.of_arena (arena_addParameters _ o.params)
    refine ⟨(ihEnding (ihBody opened).1).1.of_arena rfl, fun t wanted plain => ?_⟩
    obtain ⟨inside, _, _, returns⟩ := o.method_program
    have h := (body.extends.trans ending.extends).trans
      (q.extends_closeMethod o.method o.locals (b ++ last))
    rw [h.returns inside, returns, o.fits t wanted]
    exact plain
  | endingVoid | noStatement | blockNil | noDetour => exact fun guards => ⟨guards, trivial⟩
  | endingValue _ _ ih | print _ _ _ _ ih | callStatement _ _ _ _ ih | detourMethod _ _ _ _ ih
  | detourBuilder _ _ _ _ ih => exact fun guards => ⟨(ih guards).1, trivial⟩
  | boundReuse | boundLiteral => exact fun guards => ⟨guards.addOther rfl, trivial⟩
  | assignStatement _ _ _ _ _ ih =>
    exact fun guards => ⟨(ih guards).1.addAssignment _ _, trivial⟩
  | declare _ _ _ _ _ ih | declareField _ _ _ _ _ ih =>
    exact fun guards => ⟨(ih guards).1.of_arena rfl, trivial⟩
  | ifThen _ _ _ _ _ _ _ ih ih' | blockCons _ _ ih ih' | detourCall _ _ _ _ _ _ ih ih' =>
    exact fun guards => ⟨(ih' (ih guards).1).1, trivial⟩
  | ifElse _ _ _ _ _ _ _ _ _ _ ih ih' ih'' =>
    exact fun guards => ⟨(ih'' (ih' (ih guards).1).1).1, trivial⟩
  | loop _ _ _ _ _ _ counter _ _ ih ih' =>
    subst counter
    exact fun guards => ⟨(ih' ((ih guards).1.of_arena rfl)).1, trivial⟩

namespace Program

/-- Expressions that are no null: a text, a new object or array, a boxed value, what an operation of
the session gives, and texts put together. -/
inductive GivesValue (c : Catalog) (p : Program) (e : ExprId) : Prop where
  | text {s : String} : p.node e = .constant (.string s) → GivesValue c p e
  | construct {t : Ty} {args : List ExprId} : p.node e = .construct t args → GivesValue c p e
  | newArray {t : Ty} {sizes : List ExprId} : p.node e = .newArray t sizes → GivesValue c p e
  | boxing {k : Kind} {args : List ExprId} :
      p.node e = .call ⟨true, some (.boxed k), "valueOf", none⟩ none args → GivesValue c p e
  | onClass {op : Operation} {args : List ExprId} : op ∈ c.operations →
      p.node e = .call ⟨true, some op.declaring, op.name, none⟩ none args → GivesValue c p e
  | onObject {op : Operation} {receiver : ExprId} {args : List ExprId} : op ∈ c.operations →
      p.node e = .call ⟨false, none, op.name, none⟩ (some receiver) args → GivesValue c p e
  | concat {left right : ExprId} : p.node e = .binary .add left right → p.typeOf e = .string →
      GivesValue c p e

/-- `p.MayBeNull place` says that the place may hold null at some time. Operations of the class library
never give it. -/
inductive MayBeNull (p : Program) : Place → Prop where
  | constant {e : ExprId} : p.node e = .constant .null → MayBeNull p (.expr e)
  | read {e : ExprId} {v : Var} : p.node e = .read v → MayBeNull p (.var v) → MayBeNull p (.expr e)
  | assigned {e source : ExprId} {v : Var} : p.node e = .assign v source →
      MayBeNull p (.expr source) → MayBeNull p (.expr e)
  | called {e : ExprId} {callee : Callee} {receiver : Option ExprId} {args : List ExprId}
      {m : MethodId} : p.node e = .call callee receiver args → callee.method = some m →
      MayBeNull p (.result m) → MayBeNull p (.expr e)
  | cast {e operand : ExprId} {t : Ty} : p.node e = .cast t operand →
      MayBeNull p (.expr operand) → MayBeNull p (.expr e)
  /-- A field is null until its initializer has run. -/
  | unset {id : FieldId} : (p.declared.typeOf (.field id)).isNullable = true →
      MayBeNull p (.var (.field id))
  | stored {v : Var} {e : ExprId} : p.Stores v e → MayBeNull p (.expr e) → MayBeNull p (.var v)
  | returned {m : MethodId} {e : ExprId} : p.Returns m e → MayBeNull p (.expr e) →
      MayBeNull p (.result m)

variable {c : Catalog} {p : Program} {e : ExprId}

/-- What is never null by its node alone has no way to get it. -/
theorem not_mayBeNull_of_neverNull (never : (p.node e).neverNull = true) :
    ¬p.MayBeNull (.expr e) := by
  intro null
  cases null with
  | constant same | read same | assigned same | cast same =>
    rw [same] at never
    contradiction
  | called same method =>
    rw [same, Node.neverNull, method] at never
    contradiction

theorem Typed.givesValue (typed : p.Typed c e (p.node e) (p.typeOf e))
    (nullable : (p.typeOf e).isNullable = true) (never : (p.node e).neverNull = true) :
    p.GivesValue c e := by
  generalize type : p.typeOf e = t at typed nullable
  generalize same : p.node e = node at typed never
  cases typed with
  | @constant v _ fits =>
    have plain : v ≠ .null := bne_iff_ne.1 never
    cases t with
    | string => cases v <;> first | exact .text same | contradiction
    | _ => cases v <;> contradiction
  | boxing => exact .boxing same
  | onClass admitted => exact .onClass admitted same
  | onObject admitted => exact .onObject admitted same
  | construct => exact .construct same
  | newArray => exact .newArray same
  | concat => exact .concat same type
  | binary _ _ _ _ _ _ primitive =>
    rw [primitive] at nullable
    contradiction
  | _ => contradiction

end Program

namespace Generated

variable {c : Catalog} {p : Program} {seed : UInt64} {config : Config} {place : Place}

theorem guardsNull (generated : Generated c seed config p) : p.GuardsNull := by
  obtain ⟨length, body, q, _, run, rfl⟩ := generated.run
  have new : (Program.new config.className seed config.knobs).GuardsNull :=
    fun e a none => by contradiction
  exact (run.guardsNull new).1.of_arena rfl

theorem isNullable_of_mayBeNull (generated : Generated c seed config p)
    (null : p.MayBeNull place) : (p.typeAt place).isNullable = true := by
  have typed {e : ExprId} {node : Node} (same : p.node e = node) (made : node ≠ .hole) :
      p.Typed c e node (p.typeAt (.expr e)) := generated.sound.typed_of_node same made
  induction null with
  | @constant e same =>
    have typed := typed same (by simp)
    generalize p.typeAt (.expr e) = t at typed
    cases typed with
    | constant fits => exact fits
  | @read e v same _ ih =>
    have typed := typed same (by simp)
    generalize p.typeAt (.expr e) = t at typed
    cases typed with
    | read _ type => exact type ▸ ih
  | @assigned e source v same _ ih =>
    have typed := typed same (by simp)
    generalize p.typeAt (.expr e) = t at typed
    cases typed with
    | assign _ _ _ _ accepted => exact (Ty.isNullable_eq_of_accepts accepted).symm.trans ih
  | @called e callee receiver args m same method _ ih =>
    have typed := typed same (by simp)
    generalize p.typeAt (.expr e) = t at typed
    cases typed with
    | call _ _ type =>
      cases method
      exact type ▸ ih
    | _ => contradiction
  | @cast e operand t same _ ih =>
    have typed := typed same (by simp)
    generalize p.typeAt (.expr e) = t' at typed
    cases typed with
    | cast _ _ numeric =>
      change (p.typeOf operand).isNullable = true at ih
      generalize p.typeOf operand = u at numeric ih
      cases u <;> contradiction
  | unset nullable => exact nullable
  | stored stored _ ih =>
    exact (Ty.isNullable_eq_of_accepts (generated.accepts_of_stores stored)).symm.trans ih
  | returned returned _ ih =>
    exact (Ty.isNullable_eq_of_accepts (generated.made_of_returns returned).accepted).symm.trans ih

end Generated

/-- Receivers and arguments of the class library are never null in a generated class: those of a type
that has null are made on the spot by what never gives it. -/
theorem generated_nullSafe (catalog : Catalog) (seed : UInt64) (config : Config) :
    ∃ p c, generateWith catalog seed config = .ok (p, c) ∧ ∀ e, ∀ a ∈ (p.node e).guarded,
      ((p.typeOf a).isNullable = true → (p.node a).neverNull = true ∧ p.GivesValue c a) ∧
      ¬p.MayBeNull (.expr a) := by
  obtain ⟨p, c, done, generated⟩ := generateWith_ok catalog seed config
  refine ⟨p, c, done, fun e a member => ?_⟩
  obtain ⟨inside, never⟩ := generated.guardsNull e a member
  refine ⟨fun nullable => ⟨never nullable, ?_⟩, fun null => ?_⟩
  · exact (generated.sound.typed a inside).givesValue nullable (never nullable)
  · exact not_mayBeNull_of_neverNull (never (generated.isNullable_of_mayBeNull null)) null

end JavaSmith
