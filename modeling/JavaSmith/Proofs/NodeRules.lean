import JavaSmith.Proofs.Growth
import JavaSmith.Proofs.Operators
import JavaSmith.Proofs.Session

/-! The typing rules of expressions, one for each way in which a node is put into a class. There is
none for an expression without value. A rule speaks of what was made before the node and of parts of
the declarations that never change, so a node that obeys it does so for good. -/
namespace JavaSmith

namespace Catalog

variable {c : Catalog} {t : Ty} {b : Builder}

/-- What it takes of a builder that its value can be used where the type is required. -/
def Serves (c : Catalog) (t : Ty) : Builder → Prop
  | .null t' => t' = t ∧ t.isNullable = true
  | .literal t' => t' = t ∧ t.hasLiteral = true
  | .boxing k => t = .boxed k
  | .construct t' params => t' = t ∧ .construct t params ∈ c.ownBuilders t
  | .newArray t' index => t' = t ∧ index = c.indexType ∧ ∃ component n, t = .array component n
  | .external op => op ∈ c.operations ∧ t.accepts op.returns = true

theorem serves_of_mem_ownBuilders (h : b ∈ c.ownBuilders t) : c.Serves t b := by
  rcases List.mem_append.1 h with null | own
  · split at null
    · next nullable => exact List.mem_singleton.1 null ▸ ⟨rfl, nullable⟩
    · contradiction
  · cases t with
    | void => contradiction
    | primitive k => exact List.mem_singleton.1 own ▸ ⟨rfl, rfl⟩
    | restricted r => exact List.mem_singleton.1 own ▸ ⟨rfl, rfl⟩
    | string => exact List.mem_singleton.1 own ▸ ⟨rfl, rfl⟩
    | boxed k => exact List.mem_singleton.1 own ▸ rfl
    | object =>
      obtain rfl := List.mem_singleton.1 own
      exact ⟨rfl, h⟩
    | date =>
      obtain rfl := List.mem_singleton.1 own
      exact ⟨rfl, h⟩
    | named d isFinal constructors =>
      obtain ⟨params, _, rfl⟩ := List.mem_map.1 own
      exact ⟨rfl, h⟩
    | array component n => exact List.mem_singleton.1 own ▸ ⟨rfl, rfl, component, n, rfl⟩

theorem serves_of_mem (h : b ∈ c.allBuilders t) : c.Serves t b := by
  rcases List.mem_append.1 h with own | library
  · exact serves_of_mem_ownBuilders own
  · obtain ⟨op, member, rfl⟩ := List.mem_map.1 library
    exact List.mem_filter.1 member

theorem Serves.accepts_result (serves : c.Serves t b) (wellFormed : t.WellFormed) :
    t.accepts b.result = true := by
  have self := wellFormed.accepts_self
  cases b with
  | null | literal | construct | newArray =>
    obtain ⟨rfl, _⟩ := serves
    exact self
  | boxing =>
    obtain rfl := serves
    exact self
  | external => exact serves.2

theorem Serves.valued_result {knobs : Knobs} (serves : c.Serves t b) (prepared : c.Prepared knobs)
    (valued : t.Valued) : b.result.Valued := by
  cases b with
  | null | literal | construct | newArray =>
    obtain ⟨rfl, _⟩ := serves
    exact valued
  | boxing => trivial
  | external => exact (prepared.operation_valued serves.1).2

theorem isPlain_of_construct {params : List Ty} (valued : t.Valued)
    (h : .construct t params ∈ c.ownBuilders t) : ∀ u ∈ params, u.isPlain = true := by
  rcases List.mem_append.1 h with null | own
  · split at null
    · cases List.mem_singleton.1 null
    · contradiction
  · cases t with
    | object =>
      cases List.mem_singleton.1 own
      exact fun u member => by contradiction
    | date =>
      cases List.mem_singleton.1 own
      intro u member
      rw [List.mem_singleton.1 member]
      rfl
    | named d isFinal constructors =>
      obtain ⟨params', member, same⟩ := List.mem_map.1 own
      cases same
      exact valued.2 params member
    | void => contradiction
    | _ => cases List.mem_singleton.1 own

theorem Serves.valued_parameters {knobs : Knobs} (serves : c.Serves t b)
    (prepared : c.Prepared knobs) (valued : t.Valued) : ∀ u ∈ b.parameters, u.Valued := by
  intro u member
  cases b with
  | null | literal => contradiction
  | boxing =>
    rw [List.mem_singleton.1 member]
    trivial
  | construct =>
    obtain ⟨rfl, offered⟩ := serves
    exact Ty.valued_of_isPlain (isPlain_of_construct valued offered u member)
  | newArray =>
    obtain ⟨rfl, rfl, _⟩ := serves
    rw [(List.mem_replicate.1 member).2, prepared.indexType]
    apply Ty.valued_arraySize
    have : knobs.get .maxArrayDimensionSize ≤ 32 := (knobs.inRange .maxArrayDimensionSize).2
    omega
  | external => exact (prepared.operation_valued serves.1).1 u member

end Catalog

namespace Program

/-- Operands of the node `e`, made before it and of types that these accept, one for each. -/
def Given (p : Program) (e : ExprId) (ts : List Ty) (operands : List ExprId) : Prop :=
  List.Forall₂ (fun t o => o < e ∧ t.accepts (p.typeOf o) = true) ts operands

/-- `p.Typed c e node t` says that as expression `e` of the class the node may have the type. The
catalog is that of the session. -/
inductive Typed (c : Catalog) (p : Program) (e : ExprId) : Node → Ty → Prop where
  | constant {v : Value} {t : Ty} : v.fits t = true → Typed c p e (.constant v) t
  | read {v : Var} {t : Ty} : p.declared.Declares v → t = p.declared.typeOf v →
      Typed c p e (.read v) t
  | assign {v : Var} {source : ExprId} {t : Ty} :
      p.declared.Declares v → p.declared.isReadOnly v = false → t = p.declared.typeOf v →
      source < e → t.accepts (p.typeOf source) = true → Typed c p e (.assign v source) t
  /-- A call of a generated method. -/
  | call {m : MethodId} {isStatic : Bool} {name : String} {args : List ExprId} {t : Ty} :
      m < p.declared.methods.size → p.Given e (p.declared.method m).params args →
      t = (p.declared.method m).returns →
      Typed c p e (.call ⟨isStatic, none, name, some m⟩ none args) t
  | boxing {k : Kind} {args : List ExprId} : p.Given e [.primitive k] args →
      Typed c p e (.call ⟨true, some (.boxed k), "valueOf", none⟩ none args) (.boxed k)
  | onClass {op : Operation} {args : List ExprId} : op ∈ c.operations → op.isStatic = true →
      p.Given e op.parameters args →
      Typed c p e (.call ⟨true, some op.declaring, op.name, none⟩ none args) op.returns
  | onObject {op : Operation} {receiver : ExprId} {args : List ExprId} : op ∈ c.operations →
      op.isStatic = false → p.Given e op.parameters (receiver :: args) →
      Typed c p e (.call ⟨false, none, op.name, none⟩ (some receiver) args) op.returns
  | construct {t : Ty} {params : List Ty} {args : List ExprId} :
      .construct t params ∈ c.ownBuilders t → p.Given e params args →
      Typed c p e (.construct t args) t
  | newArray {component : Ty} {n : Nat} {sizes : List ExprId} :
      0 < n → p.Given e (List.replicate n p.indexType) sizes →
      Typed c p e (.newArray (.array component n) sizes) (.array component n)
  | cast {operand : ExprId} {t : Ty} : operand < e → t.isNumeric = true →
      (p.typeOf operand).isNumeric = true → Typed c p e (.cast t operand) t
  | concat {left right : ExprId} : left < e → right < e → p.typeOf left = .string →
      p.typeOf right = .string → Typed c p e (.binary .add left right) .string
  /-- Integers are not divided by what might be zero unless that is allowed. -/
  | binary {op : Operator} {kind : Kind} {left right : ExprId} {t : Ty} :
      op.On kind → left < e → right < e → (p.typeOf left).kind? = some kind →
      (p.typeOf right).kind? = some (if op.isShift then .int else kind) →
      (op.isDivision = true → kind.isIntegral = true → p.knobs.flag .allowDivideByZero = false →
        (p.typeOf right).excludesZero = true) →
      t = .primitive (if op.isComparison then .boolean else kind) →
      Typed c p e (.binary op left right) t

variable {c : Catalog} {p p' : Program} {e : ExprId}

theorem arrayRefusal?_eq_none_iff {t : Ty} {sizes : List ExprId} :
    p.arrayRefusal? t sizes = none ↔
      sizes.length = t.dimensions ∧ sizes ≠ [] ∧
        ∀ o ∈ sizes, p.indexType.accepts (p.typeOf o) = true := by
  unfold arrayRefusal?
  split
  · next wrong =>
    refine ⟨fun accepted => by contradiction, fun ⟨count, inhabited, _⟩ => ?_⟩
    exact absurd wrong (not_or.2 ⟨not_not.2 count, inhabited⟩)
  · next right =>
    rw [not_or, not_not] at right
    simp [right.1, right.2]

theorem assignmentRefusal?_eq_none_iff {v : Var} :
    p.assignmentRefusal? v = none ↔ p.declared.isReadOnly v = false := by
  unfold assignmentRefusal?
  split <;> simp [*]

theorem Given.later {ts : List Ty} {operands : List ExprId} (given : p.Given e ts operands)
    (h : p.Extends p') (inside : e ≤ p.arena.size) : p'.Given e ts operands := by
  refine List.Forall₂.imp (fun t o ⟨before, accepted⟩ => ⟨before, ?_⟩) given
  rw [h.typeOf (Nat.lt_of_lt_of_le before inside)]
  exact accepted

theorem Given.exists_accepting {ts : List Ty} {operands : List ExprId} (given : p.Given e ts operands)
    {o : ExprId} (member : o ∈ operands) : ∃ t ∈ ts, o < e ∧ t.accepts (p.typeOf o) = true := by
  induction given with
  | nil => contradiction
  | @cons t o' ts os first _ ih =>
    rcases List.mem_cons.1 member with rfl | later
    · exact ⟨t, List.mem_cons_self, first⟩
    · obtain ⟨u, wanted, accepted⟩ := ih later
      exact ⟨u, List.mem_cons_of_mem _ wanted, accepted⟩

theorem Extends.indexType (h : p.Extends p') : p'.indexType = p.indexType := by
  unfold Program.indexType
  rw [h.knobs]

/-- What comes later does not change whether a node obeys its rule. -/
theorem Typed.later {node : Node} {t : Ty} (typed : p.Typed c e node t) (h : p.Extends p')
    (inside : e ≤ p.arena.size) : p'.Typed c e node t := by
  have same {o : ExprId} (before : o < e) : p'.typeOf o = p.typeOf o :=
    h.typeOf (Nat.lt_of_lt_of_le before inside)
  cases typed with
  | constant fits => exact .constant fits
  | read declared type => exact .read (h.declares declared) (type.trans (h.typeOf_var declared).symm)
  | assign declared writable type before accepted =>
    refine .assign (h.declares declared) ?_ (type.trans (h.typeOf_var declared).symm) before ?_
    · rw [h.isReadOnly declared, writable]
    · rw [same before, accepted]
  | call known given type =>
    refine .call (Nat.lt_of_lt_of_le known h.methods_size) ?_ (type.trans (h.returns known).symm)
    rw [h.params known]
    exact given.later h inside
  | boxing given => exact .boxing (given.later h inside)
  | onClass admitted static given => exact .onClass admitted static (given.later h inside)
  | onObject admitted static given => exact .onObject admitted static (given.later h inside)
  | construct offered given => exact .construct offered (given.later h inside)
  | newArray positive given =>
    refine .newArray positive ?_
    rw [h.indexType]
    exact given.later h inside
  | cast before numeric operand =>
    refine .cast before numeric ?_
    rw [same before, operand]
  | concat before before' left right =>
    refine .concat before before' ?_ ?_
    · rw [same before, left]
    · rw [same before', right]
  | binary on before before' left right guarded type =>
    refine .binary on before before' ?_ ?_ ?_ type
    · rw [same before, left]
    · rw [same before', right]
    · rw [same before', h.knobs]
      exact guarded

abbrev Accepts (p : Program) (ts : List Ty) (es : List ExprId) : Prop := p.Given p.arena.size ts es

/-- What a builder of the session makes of fitting arguments obeys its rule. -/
theorem typed_of_makes {b : Builder} {args : List ExprId} {node : Node} {t : Ty}
    (index : c.indexType = p.indexType) (valued : t.Valued) (serves : c.Serves t b)
    (given : p.Given e b.parameters args) (makes : b.Makes args node) :
    p.Typed c e node b.result := by
  cases makes with
  | null =>
    obtain ⟨rfl, nullable⟩ := serves
    exact .constant (by unfold Value.fits; exact nullable)
  | literal notNull fits _ => exact .constant fits
  | boxing => exact .boxing given
  | construct =>
    obtain ⟨rfl, member⟩ := serves
    exact .construct member given
  | newArray =>
    obtain ⟨rfl, rfl, component, n, rfl⟩ := serves
    refine .newArray valued.1 ?_
    rw [← index]
    exact given
  | onClass static => exact .onClass serves.1 static given
  | onObject static => exact .onObject serves.1 static given

end Program
end JavaSmith
