import JavaSmith.Stats
import JavaSmith.Proofs.NodeRules

/-! Every run leaves a well-typed class and gives what it was made for. The invariant says nothing of
expressions that are still to be made, so it holds between any two steps of a run: within a method
that is not complete, in the middle of arguments, and after an attempt that was given up. -/
namespace JavaSmith

open Generator

theorem OfferedType.valued {c : Catalog} {knobs : Knobs} (prepared : c.Prepared knobs) {t : Ty}
    (offered : OfferedType c knobs t) : t.Valued := by
  have flat {u : Ty} (h : u ∈ c.valueTypes ∨ u = .primitive .int) :
      u.Valued ∧ u.dimensions = 0 := by
    rcases h with member | rfl
    · exact prepared.valued member
    · exact ⟨trivial, rfl⟩
  cases offered with
  | loopBound =>
    apply Ty.valued_loopBound
    have : knobs.get .maxLoopIterations ≤ 1000 := (knobs.inRange .maxLoopIterations).2
    omega
  | arraySize =>
    apply Ty.valued_arraySize
    have : knobs.get .maxArrayDimensionSize ≤ 32 := (knobs.inRange .maxArrayDimensionSize).2
    omega
  | flat base => exact (flat base).1
  | array base few => exact Ty.valued_arrayOf (flat base).1 (flat base).2

def Block.Every (P : Statement → Prop) (b : Block) : Prop := ∀ s ∈ visitBlock b, P s

def Block.All (P : ExprId → Prop) (b : Block) : Prop := ∀ s ∈ visitBlock b, ∀ e ∈ s.roots, P e

theorem visitBlock_append (a b : Block) : visitBlock (a ++ b) = visitBlock a ++ visitBlock b := by
  induction a with
  | nil => rfl
  | cons s rest ih =>
    rw [List.cons_append, visitBlock, visitBlock, ih, List.append_assoc]

theorem Statement.visit_ifElse (condition : ExprId) (body otherwise : Block) :
    (ifElse condition body otherwise).visit =
      ifElse condition body otherwise :: visitBlock (body ++ otherwise) := by
  rw [visitBlock_append, visit, List.cons_append]

namespace Block

def roots (b : Block) : List ExprId := (visitBlock b).flatMap Statement.roots

theorem roots_append (a b : Block) : roots (a ++ b) = roots a ++ roots b := by
  rw [roots, visitBlock_append, List.flatMap_append]
  rfl

theorem roots_singleton {s : Statement} {inner : Block} (visits : s.visit = s :: visitBlock inner) :
    roots [s] = s.roots ++ roots inner := by
  rw [roots, visitBlock, visitBlock, List.append_nil, visits]
  rfl

end Block

namespace Block.Every

variable {P : Statement → Prop} {a b : Block}

theorem nil : Block.Every P [] := fun s visited => by contradiction

theorem append (first : a.Every P) (rest : b.Every P) : Block.Every P (a ++ b) := by
  intro s visited
  rw [visitBlock_append] at visited
  exact (List.mem_append.1 visited).elim (first s) (rest s)

theorem singleton {s : Statement} {inner : Block} (visits : s.visit = s :: visitBlock inner)
    (own : P s) (nested : inner.Every P) : Block.Every P [s] := by
  intro s' visited
  rw [visitBlock, visitBlock, List.append_nil, visits] at visited
  rcases List.mem_cons.1 visited with rfl | within
  · exact own
  · exact nested s' within

theorem leaf {s : Statement} (visits : s.visit = [s]) (own : P s) : Block.Every P [s] :=
  singleton (by rw [visits, visitBlock]) own nil

end Block.Every

namespace Block.All

variable {P Q : ExprId → Prop}

theorem nil : Block.All P [] := Every.nil

theorem mono {b : Block} (all : b.All P) (imp : ∀ e, P e → Q e) : b.All Q :=
  fun s visited e root => imp e (all s visited e root)

theorem of_mem {b : Block} (all : b.All P) {e : ExprId} (root : e ∈ roots b) : P e := by
  obtain ⟨s, visited, own⟩ := List.mem_flatMap.1 root
  exact all s visited e own

theorem append {a b : Block} (first : a.All P) (rest : b.All P) : Block.All P (a ++ b) :=
  Every.append first rest

theorem singleton {s : Statement} {inner : Block} (visits : s.visit = s :: visitBlock inner)
    (own : ∀ e ∈ s.roots, P e) (nested : inner.All P) : Block.All P [s] :=
  Every.singleton visits own nested

theorem leaf {s : Statement} {e : ExprId} (visits : s.visit = [s]) (roots : s.roots = [e])
    (holds : P e) : Block.All P [s] := by
  refine Every.leaf visits fun e' root => ?_
  rw [roots, List.mem_singleton] at root
  exact root ▸ holds

end Block.All

namespace Program

abbrev Roots (p : Program) (b : Block) : Prop := b.All (· < p.arena.size)

/-- The expression has been made, and can be used where the type is required. -/
structure Made (p : Program) (t : Ty) (e : ExprId) : Prop where
  inside : e < p.arena.size
  accepted : t.accepts (p.typeOf e) = true

/-- The typing rules of statements, in a method with the result type. They say of a statement what it
stores, tests, counts up to or returns; statements within it have rules of their own. -/
def StatementTyped (p : Program) (returns : Ty) : Statement → Prop
  | .expression e | .print e => e < p.arena.size
  | .declare l e => l < p.declared.locals.size ∧ p.Made (p.declared.typeOf (.localVar l)) e
  | .ifThen condition _ | .ifElse condition _ _ => p.Made (.primitive .boolean) condition
  | .loop _ counter bound _ =>
    (counter < p.declared.locals.size ∧ p.declared.typeOf (.localVar counter) = .primitive .int) ∧
      p.Made (.loopBound (p.knobs.get .maxLoopIterations)) bound
  | .returnVoid => True
  | .returnValue e => p.Made returns e

abbrev BlockTyped (p : Program) (returns : Ty) (b : Block) : Prop :=
  b.Every (p.StatementTyped returns)

structure FieldTyped (p : Program) (f : FieldDeclaration) : Prop where
  known : f.field < p.declared.fields.size
  initializer : p.Made (p.declared.typeOf (.field f.field)) f.initializer

/-- The parameters of a method are locals of the types that it was declared with. -/
structure MethodTyped (p : Program) (m : MethodDeclaration) : Prop where
  known : m.method < p.declared.methods.size
  locals : ∀ l ∈ m.params, l < p.declared.locals.size
  params : m.params.map (fun l => p.declared.typeOf (.localVar l)) =
    (p.declared.method m.method).params
  body : p.BlockTyped (p.declared.method m.method).returns m.body

/-- The class is well typed and all its parts are there. -/
structure Sound (c : Catalog) (p : Program) : Prop where
  tracks : p.declared.Tracks
  typed : ∀ e < p.arena.size, p.Typed c e (p.node e) (p.typeOf e)
  valued : ∀ e < p.arena.size, (p.typeOf e).Valued ∨ p.typeOf e = .void
  vars : ∀ v, p.declared.Declares v → (p.declared.typeOf v).Valued
  params : ∀ m < p.declared.methods.size, ∀ t ∈ (p.declared.method m).params, t.Valued
  returns : ∀ m < p.declared.methods.size,
    (p.declared.method m).returns.Valued ∨ (p.declared.method m).returns = .void
  fields : ∀ f ∈ p.fields.toList, p.FieldTyped f
  methods : ∀ m ∈ p.methods.toList, p.MethodTyped m

variable {c : Catalog} {p p' : Program}

theorem Made.later {t : Ty} {e : ExprId} (made : p.Made t e) (h : p.Extends p') : p'.Made t e where
  inside := Nat.lt_of_lt_of_le made.inside h.arena_size
  accepted := by
    rw [h.typeOf made.inside]
    exact made.accepted

theorem StatementTyped.later {returns : Ty} {s : Statement} (typed : p.StatementTyped returns s)
    (h : p.Extends p') : p'.StatementTyped returns s := by
  cases s with
  | expression e | print e => exact Nat.lt_of_lt_of_le typed h.arena_size
  | declare l e =>
    obtain ⟨known, made⟩ := typed
    have same := h.typeOf_var (v := .localVar l) known
    exact ⟨Nat.lt_of_lt_of_le known h.locals_size, same ▸ made.later h⟩
  | ifThen condition body | ifElse condition body otherwise | returnValue e =>
    exact Made.later typed h
  | loop kind counter bound body =>
    obtain ⟨⟨known, type⟩, made⟩ := typed
    have same := h.typeOf_var (v := .localVar counter) known
    have bounded := made.later h
    rw [← h.knobs] at bounded
    exact ⟨⟨Nat.lt_of_lt_of_le known h.locals_size, same.trans type⟩, bounded⟩
  | returnVoid => trivial

theorem StatementTyped.inside {returns : Ty} {s : Statement} (typed : p.StatementTyped returns s) :
    ∀ e ∈ s.roots, e < p.arena.size := by
  intro e root
  cases s with
  | returnVoid => contradiction
  | expression | print => exact List.mem_singleton.1 root ▸ typed
  | declare | loop => exact List.mem_singleton.1 root ▸ typed.2.inside
  | ifThen | ifElse | returnValue => exact List.mem_singleton.1 root ▸ Made.inside typed

theorem BlockTyped.later {returns : Ty} {b : Block} (typed : p.BlockTyped returns b)
    (h : p.Extends p') : p'.BlockTyped returns b :=
  fun s visited => (typed s visited).later h

theorem BlockTyped.roots {returns : Ty} {b : Block} (typed : p.BlockTyped returns b) : p.Roots b :=
  fun s visited => (typed s visited).inside

theorem FieldTyped.later {f : FieldDeclaration} (typed : p.FieldTyped f) (h : p.Extends p') :
    p'.FieldTyped f where
  known := Nat.lt_of_lt_of_le typed.known h.fields_size
  initializer := by
    have same := h.typeOf_var (v := .field f.field) typed.known
    exact same ▸ typed.initializer.later h

theorem MethodTyped.later {m : MethodDeclaration} (typed : p.MethodTyped m) (h : p.Extends p') :
    p'.MethodTyped m where
  known := Nat.lt_of_lt_of_le typed.known h.methods_size
  locals l member := Nat.lt_of_lt_of_le (typed.locals l member) h.locals_size
  params := by
    rw [h.params typed.known, ← typed.params]
    exact List.map_congr_left fun l member => h.typeOf_var (v := .localVar l) (typed.locals l member)
  body := by
    rw [h.returns typed.known]
    exact typed.body.later h

theorem node_add (p : Program) (node : Node) (t : Ty) :
    (p.add node t).2.node p.arena.size = node := by
  simp [add, Program.node]

theorem typeOf_add (p : Program) (node : Node) (t : Ty) :
    (p.add node t).2.typeOf p.arena.size = t := by
  simp [add, Program.typeOf]

theorem size_add (p : Program) (node : Node) (t : Ty) :
    (p.add node t).2.arena.size = p.arena.size + 1 := by
  simp [add]

theorem made_add (p : Program) (node : Node) {t u : Ty} (accepted : t.accepts u = true) :
    (p.add node u).2.Made t (p.add node u).1 where
  inside := by
    rw [size_add]
    exact Nat.lt_succ_self _
  accepted := by
    change t.accepts ((p.add node u).2.typeOf p.arena.size) = true
    rw [typeOf_add]
    exact accepted

theorem new_addInitializedField (p : Program) (modifiers : Modifiers) (t : Ty) (e : ExprId) :
    p.declared.fields.size < (p.addInitializedField modifiers t e).declared.fields.size ∧
    (p.addInitializedField modifiers t e).declared.typeOf (.field p.declared.fields.size) = t := by
  simp [addInitializedField, Declarations.addField, Declarations.setInitialized,
    Declarations.typeOf, Declarations.field, Array.getElem_modify]

theorem new_addInitializedLocal (p : Program) (modifiers : Modifiers) (t : Ty) :
    (p.addInitializedLocal modifiers t).1 <
      (p.addInitializedLocal modifiers t).2.declared.locals.size ∧
    (p.addInitializedLocal modifiers t).2.declared.typeOf
      (.localVar (p.addInitializedLocal modifiers t).1) = t := by
  simp [addInitializedLocal, Declarations.addLocal, Declarations.setInitialized,
    Declarations.typeOf, Declarations.localVar, Array.getElem_modify]

theorem new_addCounter (p : Program) :
    p.addCounter.1 < p.addCounter.2.declared.locals.size ∧
    p.addCounter.2.declared.typeOf (.localVar p.addCounter.1) = .primitive .int := by
  simp [addCounter, Declarations.addCounter, Declarations.typeOf, Declarations.localVar]

namespace Sound

theorem add {node : Node} {t : Ty} (sound : p.Sound c) (typed : p.Typed c p.arena.size node t)
    (valued : t.Valued ∨ t = .void) : (p.add node t).2.Sound c := by
  have h := p.extends_add node t
  have cases' {e : ExprId} (inside : e < (p.add node t).2.arena.size) :
      e < p.arena.size ∨ e = p.arena.size := by
    rw [size_add] at inside
    exact Nat.lt_or_eq_of_le (Nat.le_of_lt_succ inside)
  refine { sound with
    typed := fun e inside => ?_, valued := fun e inside => ?_, fields := ?_, methods := ?_ }
  · rcases cases' inside with old | rfl
    · rw [h.node old, h.typeOf old]
      exact (sound.typed e old).later h (Nat.le_of_lt old)
    · rw [node_add, typeOf_add]
      exact typed.later h (Nat.le_refl _)
  · rcases cases' inside with old | rfl
    · rw [h.typeOf old]
      exact sound.valued e old
    · rw [typeOf_add]
      exact valued
  · exact fun f member => (sound.fields f member).later h
  · exact fun m member => (sound.methods m member).later h

theorem of_extends (sound : p.Sound c) (h : p.Extends p') (arena : p'.arena = p.arena)
    (tracks : p'.declared.Tracks)
    (vars : ∀ v, p'.declared.Declares v → p.declared.Declares v ∨ (p'.declared.typeOf v).Valued)
    (records : ∀ m < p'.declared.methods.size, m < p.declared.methods.size ∨
      (∀ t ∈ (p'.declared.method m).params, t.Valued) ∧
      ((p'.declared.method m).returns.Valued ∨ (p'.declared.method m).returns = .void))
    (fields : ∀ f ∈ p'.fields.toList, f ∈ p.fields.toList ∨ p'.FieldTyped f)
    (methods : ∀ m ∈ p'.methods.toList, m ∈ p.methods.toList ∨ p'.MethodTyped m) : p'.Sound c where
  tracks := tracks
  typed e inside := by
    rw [arena] at inside
    rw [h.node inside, h.typeOf inside]
    exact (sound.typed e inside).later h (Nat.le_of_lt inside)
  valued e inside := by
    rw [arena] at inside
    rw [h.typeOf inside]
    exact sound.valued e inside
  vars v declared := by
    rcases vars v declared with old | new
    · rw [h.typeOf_var old]
      exact sound.vars v old
    · exact new
  params m inside := by
    rcases records m inside with old | new
    · rw [h.params old]
      exact sound.params m old
    · exact new.1
  returns m inside := by
    rcases records m inside with old | new
    · rw [h.returns old]
      exact sound.returns m old
    · exact new.2
  fields f member := (fields f member).elim (fun old => (sound.fields f old).later h) id
  methods m member := (methods m member).elim (fun old => (sound.methods m old).later h) id

theorem setInitialized (sound : p.Sound c) (v : Var) :
    Program.Sound c { p with declared := p.declared.setInitialized v } := by
  refine sound.of_extends (p.extends_setInitialized v) rfl ?_ (fun w declared => .inl ?_) ?_
    (fun f => .inl) (fun m => .inl)
  · cases v <;> exact ⟨sound.tracks.exact, sound.tracks.sizes⟩
  · cases v <;> cases w <;>
      simpa [Declarations.setInitialized, Declarations.Declares] using declared
  · cases v <;> exact fun m inside => .inl inside

theorem addAssignment (sound : p.Sound c) {v : Var} {source : ExprId}
    (declared : p.declared.Declares v) (writable : p.declared.isReadOnly v = false)
    (made : source < p.arena.size)
    (accepted : (p.declared.typeOf v).accepts (p.typeOf source) = true) :
    (p.addAssignment v source).2.Sound c := by
  have h := p.extends_setInitialized v
  refine (sound.setInitialized v).add ?_ (.inl (sound.vars v declared))
  exact .assign (h.declares declared) ((h.isReadOnly declared).trans writable)
    (h.typeOf_var declared).symm made accepted

theorem addLocal (sound : p.Sound c) (l : Local) (valued : l.type.Valued) :
    (p.withDeclared { p.declared with locals := p.declared.locals.push l }).Sound c := by
  refine sound.of_extends ?_ rfl ⟨sound.tracks.exact, sound.tracks.sizes⟩ (fun v declared => ?_)
    (fun m => .inl) (fun f => .inl) (fun m => .inl)
  · exact { Extends.refl p with localRecords := prefix_map_push .. }
  · cases v with
    | field id => exact .inl declared
    | localVar id =>
      have inside : id < (p.declared.locals.push l).size := declared
      rw [Array.size_push] at inside
      rcases Nat.lt_or_eq_of_le (Nat.le_of_lt_succ inside) with old | rfl
      · exact .inl old
      · refine .inr ?_
        simpa [withDeclared, Declarations.typeOf, Declarations.localVar] using valued

theorem addInitializedLocal (sound : p.Sound c) (modifiers : Modifiers) {t : Ty}
    (valued : t.Valued) : (p.addInitializedLocal modifiers t).2.Sound c :=
  (sound.addLocal ⟨modifiers, t, false, false⟩ valued).setInitialized _

theorem addCounter (sound : p.Sound c) : p.addCounter.2.Sound c :=
  sound.addLocal ⟨.none, .primitive .int, true, true⟩ trivial

theorem addParameters (sound : p.Sound c) {params : List Ty} (valued : ∀ t ∈ params, t.Valued) :
    (p.addParameters params).2.Sound c := by
  induction params generalizing p with
  | nil => exact sound
  | cons t rest ih =>
    apply ih
    · exact sound.addInitializedLocal .none (valued t List.mem_cons_self)
    · exact fun u member => valued u (List.mem_cons_of_mem _ member)

theorem addInitializedField (sound : p.Sound c) (modifiers : Modifiers) {t : Ty} {e : ExprId}
    (valued : t.Valued) (made : p.Made t e) : (p.addInitializedField modifiers t e).Sound c := by
  have added : (p.withDeclared (p.declared.addField modifiers t)).Sound c := by
    refine sound.of_extends ?_ rfl ⟨sound.tracks.exact, sound.tracks.sizes⟩ (fun v declared => ?_)
      (fun m => .inl) (fun f => .inl) (fun m => .inl)
    · exact { Extends.refl p with fieldRecords := prefix_map_push .. }
    · cases v with
      | localVar id => exact .inl declared
      | field id =>
        have inside : id < (p.declared.fields.push ⟨modifiers, t, false⟩).size := declared
        rw [Array.size_push] at inside
        rcases Nat.lt_or_eq_of_le (Nat.le_of_lt_succ inside) with old | rfl
        · exact .inl old
        · refine .inr ?_
          simpa [withDeclared, Declarations.addField, Declarations.typeOf, Declarations.field]
            using valued
  have initialized := added.setInitialized (.field p.declared.fields.size)
  refine initialized.of_extends ?_ rfl initialized.tracks (fun v => .inl) (fun m => .inl)
    (fun f member => ?_) (fun m => .inl)
  · exact { Extends.refl _ with fields := by simp [Program.addInitializedField, withDeclared] }
  · rcases mem_toList_push member with old | rfl
    · exact .inl old
    · obtain ⟨known, type⟩ := p.new_addInitializedField modifiers t e
      exact .inr ⟨known, type.symm ▸ made.later (p.extends_addInitializedField modifiers t e)⟩

theorem addMethod (sound : p.Sound c) (modifiers : Modifiers) {params : List Ty} {returns : Ty}
    (valued : ∀ t ∈ params, t.Valued) (result : returns.Valued ∨ returns = .void) :
    (p.withDeclared (p.declared.addMethod modifiers params returns)).Sound c := by
  refine sound.of_extends (p.extends_addMethod modifiers params returns) rfl
    (sound.tracks.appendMethod _) (fun v declared => .inl (by cases v <;> exact declared))
    (fun m inside => ?_) (fun f => .inl) (fun m => .inl)
  have size : m < p.declared.methods.size + 1 := by
    simpa [withDeclared, Declarations.addMethod, Declarations.appendMethod] using inside
  rcases Nat.lt_or_eq_of_le (Nat.le_of_lt_succ size) with old | rfl
  · exact .inl old
  · refine .inr ?_
    simpa [withDeclared, Declarations.addMethod, Declarations.appendMethod, Declarations.method]
      using ⟨valued, result⟩

theorem addCallEdge (sound : p.Sound c) {caller callee : MethodId} {d : Declarations}
    (known : caller < p.declared.methods.size) (known' : callee < p.declared.methods.size)
    (recorded : p.declared.addCallEdge caller callee = .ok d) : (p.withDeclared d).Sound c := by
  have h := extends_addCallEdge recorded
  have tracks := sound.tracks.addCallEdge known known' recorded
  obtain ⟨_, _, g, _, rfl⟩ := Declarations.addCallEdge_eq_ok_iff.1 recorded
  exact sound.of_extends h rfl tracks (fun v declared => .inl (by cases v <;> exact declared))
    (fun m => .inl) (fun f => .inl) (fun m => .inl)

theorem recordCost (sound : p.Sound c) (m : MethodId) (body : Block) :
    (p.recordCost m body).Sound c := by
  have sizes : (p.declared.setCost m (p.blockCost body)).methods.size = p.declared.methods.size := by
    simp [Declarations.setCost]
  refine sound.of_extends (p.extends_recordCost m body) rfl
    ⟨sound.tracks.exact, sound.tracks.sizes.trans sizes.symm⟩
    (fun v declared => .inl (by cases v <;> exact declared)) (fun k inside => .inl ?_)
    (fun f => .inl) (fun m => .inl)
  exact Nat.lt_of_lt_of_eq inside sizes

theorem addBody (sound : p.Sound c) {m : MethodDeclaration} (typed : p.MethodTyped m) :
    (p.addBody m).Sound c := by
  refine sound.of_extends (p.extends_addBody m) rfl sound.tracks (fun v => .inl) (fun m => .inl)
    (fun f => .inl) (fun k member => ?_)
  rcases mem_toList_push member with old | rfl
  · exact .inl old
  · exact .inr (typed.later (p.extends_addBody _))

theorem coerced (sound : p.Sound c) {e : ExprId} {kind : Kind} (inside : e < p.arena.size)
    (castable : (p.typeOf e).kind? = some kind ∨
      kind.isNumeric = true ∧ (p.typeOf e).isNumeric = true) :
    (p.coerced e kind).2.Sound c ∧ (p.coerced e kind).1 < (p.coerced e kind).2.arena.size ∧
      ((p.coerced e kind).2.typeOf (p.coerced e kind).1).kind? = some kind := by
  unfold Program.coerced
  split
  · next same => exact ⟨sound, inside, by simpa using same⟩
  · next differs =>
    obtain ⟨numeric, operand⟩ := castable.resolve_left (by simpa using differs)
    have kind' := kind_coercedType (p.typeOf e) kind
    have valued : (coercedType (p.typeOf e) kind).Valued := by
      rcases sound.valued e inside with valued | void
      · exact valued_coercedType valued kind
      · rw [void] at operand
        contradiction
    refine ⟨sound.add (.cast inside ?_ operand) (.inl valued), ?_, ?_⟩
    · rw [Ty.isNumeric_of_kind kind', numeric]
    · exact (made_add p _ (Ty.accepts_refl valued)).inside
    · exact (congrArg Ty.kind? (p.typeOf_add _ _)).trans kind'

theorem excludesZero_coerced (sound : p.Sound c) {e : ExprId} {kind : Kind}
    (made : p.Made .nonzeroInt e) (wide : kind ∈ [Kind.int, .long]) :
    ((p.coerced e kind).2.typeOf (p.coerced e kind).1).excludesZero = true := by
  have excludes := Ty.excludesZero_of_accepts made.accepted (by decide)
  unfold Program.coerced
  split
  · exact excludes
  · obtain ⟨r, type, widens, _⟩ := Ty.restricted_accepts made.accepted
    have valid : r.Valid := by
      have := sound.valued e made.inside
      rw [type] at this
      exact this.resolve_right (by simp)
    obtain ⟨wider, integral⟩ := Kind.isWideningOf_int wide
    refine (congrArg Ty.excludesZero (p.typeOf_add _ _)).trans ?_
    rw [type] at excludes ⊢
    rw [coercedType_of_isWideningOf valid (Kind.isWideningOf_trans wider widens) integral]
    exact excludes

theorem rightOperand (sound : p.Sound c) {use : OperatorUse} {kind rightKind : Kind} {allow : Bool}
    {right : ExprId} (computed : use.kind? = some kind)
    (distance : (if use.op.isShift = true then Kind.int else kind) = rightKind)
    (operands : use.right = .primitive rightKind ∧ use.isGuarded allow = false ∨
      use.right = .nonzeroInt ∧ use.op.isShift = false ∧ kind ∈ [Kind.int, .long])
    (made : p.Made use.right right) :
    ((p.typeOf right).kind? = some rightKind ∨
      rightKind.isNumeric = true ∧ (p.typeOf right).isNumeric = true) ∧
    (use.op.isDivision = true → kind.isIntegral = true → allow = false →
      ((p.coerced right rightKind).2.typeOf (p.coerced right rightKind).1).excludesZero = true) := by
  rcases operands with ⟨plain, unguarded⟩ | ⟨nonzero, noShift, wide⟩
  · rw [plain] at made
    refine ⟨(em _).imp_right (isNumeric_of_coerced made.accepted), ?_⟩
    intro division integral forbidden
    simp [OperatorUse.isGuarded, division, computed, integral, forbidden] at unguarded
  · obtain rfl : kind = rightKind := by rw [← distance, noShift]; rfl
    rw [nonzero] at made
    refine ⟨.inr ⟨?_, Ty.isNumeric_of_accepts made.accepted rfl⟩, ?_⟩
    · cases kind <;> first | rfl | contradiction
    · exact fun _ _ _ => sound.excludesZero_coerced made wide

theorem coercedOperands (sound : p.Sound c) {use : OperatorUse} {t : Ty} {left right : ExprId}
    (chosen : use.For (p.knobs.flag .allowDivideByZero) t) (madeLeft : p.Made use.leftType left)
    (madeRight : p.Made use.right right) :
    (p.coercedOperands use left right).2.Sound c ∧
    (p.coercedOperands use left right).2.Typed c (p.coercedOperands use left right).2.arena.size
      (.binary use.op (p.coercedOperands use left right).1.1 (p.coercedOperands use left right).1.2)
      use.resultType := by
  rcases chosen.operands with rfl | ⟨kind, computed, on, operands⟩
  · exact ⟨sound, .concat madeLeft.inside madeRight.inside (Ty.string_accepts madeLeft.accepted)
      (Ty.string_accepts madeRight.accepted)⟩
  · have leftType : use.leftType = .primitive kind := by rw [OperatorUse.leftType, computed]
    have resultType : use.resultType =
        .primitive (if use.op.isComparison then .boolean else kind) := by
      rw [OperatorUse.resultType, computed]
      dsimp only
      split
      · rfl
      · rfl
    obtain ⟨insideLeft, acceptedLeft⟩ := madeLeft
    rw [leftType] at acceptedLeft
    have castable : (p.typeOf left).kind? = some kind ∨
        kind.isNumeric = true ∧ (p.typeOf left).isNumeric = true :=
      (em _).imp_right (isNumeric_of_coerced acceptedLeft)
    obtain ⟨soundLeft, insideLeft, kindLeft⟩ := sound.coerced insideLeft castable
    have h := p.extends_coerced left kind
    have madeRight := madeRight.later h
    unfold Program.coercedOperands
    rw [computed]
    dsimp only
    generalize p.coerced left kind = q at *
    generalize distance : (if use.op.isShift = true then Kind.int else kind) = rightKind at *
    obtain ⟨castable, guarded⟩ := soundLeft.rightOperand computed distance operands madeRight
    obtain ⟨soundRight, insideRight, kindRight⟩ := soundLeft.coerced madeRight.inside castable
    have later := q.2.extends_coerced right rightKind
    refine ⟨soundRight, .binary on (Nat.lt_of_lt_of_le insideLeft later.arena_size) insideRight ?_ ?_ ?_
      resultType⟩
    · rw [later.typeOf insideLeft, kindLeft]
    · rw [kindRight, distance]
    · rw [later.knobs, h.knobs]
      exact guarded

/-- An operator on operands for which it was chosen makes a value of the type. -/
theorem applied (sound : p.Sound c) {use : OperatorUse} {t : Ty} {left right : ExprId}
    (chosen : use.For (p.knobs.flag .allowDivideByZero) t) (madeLeft : p.Made use.leftType left)
    (madeRight : p.Made use.right right) :
    (p.applied use t left right).2.Sound c ∧
    (p.applied use t left right).2.Made t (p.applied use t left right).1 := by
  obtain ⟨soundOperands, typed⟩ := sound.coercedOperands chosen madeLeft madeRight
  have valued := use.valued_resultType
  have soundBinary := soundOperands.add typed (.inl valued)
  unfold Program.applied
  dsimp only
  split
  · next accepted => exact ⟨soundBinary, made_add _ _ accepted⟩
  · next refused =>
    obtain ⟨numeric, result⟩ := chosen.result.resolve_left refused
    have self := made_add (p.coercedOperands use left right).2
      (.binary use.op (p.coercedOperands use left right).1.1
        (p.coercedOperands use left right).1.2) (Ty.accepts_refl valued)
    have type : t.Valued := by
      cases t <;> trivial
    refine ⟨soundBinary.add (.cast self.inside numeric ?_) (.inl type), ?_⟩
    · exact (congrArg Ty.isNumeric (typeOf_add _ _ _)).trans result
    · exact made_add _ _ (Ty.accepts_refl type)

end Sound
end Program
end JavaSmith
