import JavaSmith.Proofs.RunCosts

/-! What classes are made of. All types are of the session, restricted, or arrays of types of the session
with no more dimensions than the settings allow; constants are such as are drawn; and what is called of
the class itself goes by the name that it was declared with. -/
namespace JavaSmith

open Generator Program

namespace Catalog

theorem primitive_mem_sessionTypes (k : Kind) : .primitive k ∈ sessionTypes := by
  simp [sessionTypes, basicTypes, Kind.mem_all]

theorem boxed_mem_sessionTypes (k : Kind) : .boxed k ∈ sessionTypes := by
  simp [sessionTypes, basicTypes, Kind.mem_all]

theorem ne_array_of_mem_sessionTypes {t : Ty} (h : t ∈ sessionTypes) (component : Ty) (n : Nat) :
    t ≠ .array component n := by
  rintro rfl
  simp [sessionTypes, basicTypes, stringBuilderType, mathType] at h

theorem dimensions_of_mem_sessionTypes {t : Ty} (h : t ∈ sessionTypes) : t.dimensions = 0 := by
  cases t with
  | array component n => exact absurd rfl (ne_array_of_mem_sessionTypes h component n)
  | _ => rfl

theorem Prepared.operation_known {c : Catalog} {knobs : Knobs} (prepared : c.Prepared knobs)
    {op : Operation} (h : op ∈ c.operations) :
    op.declaring ∈ sessionTypes ∧ op.returns ∈ sessionTypes ∧ (∀ t ∈ op.params, t ∈ sessionTypes) ∧
      ∃ e ∈ Library.entries, op.name = e.name := by
  obtain ⟨e, listed, _, resolved⟩ := prepared.operations op h
  obtain ⟨declaring, returns, params⟩ := mem_types_of_resolve? resolved
  refine ⟨prepared.known _ declaring, prepared.known _ returns,
    fun t member => prepared.known t (params t member), e, listed, ?_⟩
  obtain ⟨_, _, _, _, _, _, rfl⟩ := exists_of_resolve? resolved
  rfl

end Catalog

/-- Types that a class is written with under the settings. -/
inductive Ty.Stock (knobs : Knobs) : Ty → Prop where
  | catalogued {t : Ty} : t ∈ Catalog.sessionTypes → Stock knobs t
  | restricted (r : Restriction) : Stock knobs (.restricted r)
  | array {component : Ty} {n : Nat} : component ∈ Catalog.sessionTypes →
      n ≤ knobs.get .maxArrayDimensions → Stock knobs (.array component n)

namespace Ty

variable {knobs : Knobs} {t : Ty}

theorem Stock.void : Stock knobs .void := .catalogued (by simp [Catalog.sessionTypes, Catalog.basicTypes])

theorem Stock.string : Stock knobs .string :=
  .catalogued (by simp [Catalog.sessionTypes, Catalog.basicTypes])

theorem Stock.primitive (k : Kind) : Stock knobs (.primitive k) :=
  .catalogued (Catalog.primitive_mem_sessionTypes k)

theorem stock_of_kind? {k : Kind} (kind : t.kind? = some k) : t.Stock knobs := by
  cases t with
  | primitive k => exact .primitive k
  | restricted r => exact .restricted r
  | _ => contradiction

theorem stock_of_isPlain (plain : t.isPlain = true) : t.Stock knobs := by
  cases t with
  | primitive k => exact .primitive k
  | string => exact .string
  | _ => contradiction

theorem Stock.dimensions_le (stock : t.Stock knobs) : t.dimensions ≤ knobs.get .maxArrayDimensions := by
  cases stock with
  | catalogued member => exact Catalog.dimensions_of_mem_sessionTypes member ▸ Nat.zero_le _
  | restricted r => exact Nat.zero_le _
  | array _ few => exact few

theorem Stock.dimensions_component {component : Ty} {n : Nat}
    (stock : (Ty.array component n).Stock knobs) : component.dimensions = 0 := by
  cases stock with
  | catalogued member => exact absurd rfl (Catalog.ne_array_of_mem_sessionTypes member _ _)
  | array member _ => exact Catalog.dimensions_of_mem_sessionTypes member

theorem stock_arrayOf (member : t ∈ Catalog.sessionTypes) {n : Nat} (few : n ≤ knobs.get .maxArrayDimensions) :
    (t.arrayOf n).Stock knobs := by
  unfold arrayOf
  split
  · exact .catalogued member
  · split
    · exact absurd rfl (Catalog.ne_array_of_mem_sessionTypes member _ _)
    · exact .array member (Nat.le_trans (Nat.min_le_right ..) few)

end Ty

theorem OfferedType.stock {c : Catalog} {knobs : Knobs} (prepared : c.Prepared knobs) {t : Ty}
    (offered : OfferedType c knobs t) : t.Stock knobs := by
  have known {u : Ty} (h : u ∈ c.valueTypes ∨ u = .primitive .int) : u ∈ Catalog.sessionTypes := by
    rcases h with member | rfl
    · exact prepared.known u (List.mem_filter.1 member).1
    · exact Catalog.primitive_mem_sessionTypes .int
  cases offered with
  | loopBound | arraySize => exact .restricted _
  | flat base => exact .catalogued (known base)
  | array base few => exact Ty.stock_arrayOf (known base) few

namespace Catalog

variable {c : Catalog} {knobs : Knobs} {t : Ty} {b : Builder}

theorem Serves.stock_result (serves : c.Serves t b) (prepared : c.Prepared knobs)
    (stock : t.Stock knobs) : b.result.Stock knobs := by
  cases b with
  | null | literal | construct | newArray =>
    obtain ⟨rfl, _⟩ := serves
    exact stock
  | boxing => exact .catalogued (boxed_mem_sessionTypes _)
  | external => exact .catalogued (prepared.operation_known serves.1).2.1

theorem isPlain_of_construct_of_stock {params : List Ty} (stock : t.Stock knobs)
    (h : .construct t params ∈ c.ownBuilders t) : ∀ u ∈ params, u.isPlain = true := by
  cases stock with
  | catalogued member =>
    rcases valued_of_mem_sessionTypes member with rfl | rfl | valued
    · simp [ownBuilders, Ty.isNullable, Ty.isReference] at h
    · simp [ownBuilders, mathType, Ty.isNullable, Ty.isReference] at h
    · exact isPlain_of_construct valued.1 h
  | restricted | array => simp [ownBuilders] at h

theorem Serves.stock_parameters (serves : c.Serves t b) (prepared : c.Prepared knobs)
    (stock : t.Stock knobs) : ∀ u ∈ b.parameters, u.Stock knobs := by
  intro u member
  cases b with
  | null | literal => contradiction
  | boxing => exact List.mem_singleton.1 member ▸ .primitive _
  | construct =>
    obtain ⟨rfl, offered⟩ := serves
    exact Ty.stock_of_isPlain (isPlain_of_construct_of_stock stock offered u member)
  | newArray =>
    obtain ⟨rfl, rfl, _⟩ := serves
    rw [(List.mem_replicate.1 member).2, prepared.indexType]
    exact .restricted _
  | external op =>
    obtain ⟨declaring, _, params, _⟩ := prepared.operation_known serves.1
    unfold Builder.parameters Operation.parameters at member
    dsimp only at member
    split at member
    · exact .catalogued (params u member)
    · rcases List.mem_cons.1 member with rfl | param
      · exact .catalogued declaring
      · exact .catalogued (params u param)

end Catalog

namespace Generator.OperatorUse

variable {use : OperatorUse} {allow : Bool} {knobs : Knobs} {t : Ty}

theorem stock_leftType (use : OperatorUse) : use.leftType.Stock knobs := by
  unfold leftType
  split
  · exact .string
  · exact .primitive _

theorem stock_resultType (use : OperatorUse) : use.resultType.Stock knobs := by
  unfold resultType
  split
  · exact .string
  · split <;> exact .primitive _

theorem For.stock_right (chosen : use.For allow t) : use.right.Stock knobs := by
  rcases chosen.operands with rfl | ⟨kind, _, _, ⟨right, _⟩ | ⟨right, _⟩⟩
  · exact .string
  · exact right ▸ .primitive _
  · exact right ▸ .restricted _

end Generator.OperatorUse

theorem getD_mem_or_eq {α : Type} (xs : Array α) (i : Nat) (d : α) :
    xs[i]?.getD d ∈ xs.toList ∨ xs[i]?.getD d = d := by
  cases known : xs[i]? with
  | none => exact .inr rfl
  | some x => exact .inl (List.mem_of_getElem? (Array.getElem?_toList.trans known))

namespace Declarations

def types (d : Declarations) : List Ty :=
  d.fields.toList.map Field.type ++ d.locals.toList.map Local.type ++
    (d.methods.toList.map fun m => m.returns :: m.params).flatten

variable {d : Declarations} {t : Ty}

theorem types_setInitialized (d : Declarations) (v : Var) : (d.setInitialized v).types = d.types := by
  cases v with
  | field id =>
    unfold types
    dsimp only [setInitialized]
    rw [map_toList_modify]
    exact fun _ => rfl
  | localVar id =>
    unfold types
    dsimp only [setInitialized]
    rw [map_toList_modify]
    exact fun _ => rfl

theorem types_setCost (d : Declarations) (m : MethodId) (cost : Nat) :
    (d.setCost m cost).types = d.types := by
  unfold types
  dsimp only [setCost]
  rw [map_toList_modify]
  exact fun _ => rfl

theorem mem_types_pushField {f : Field}
    (member : t ∈ types { d with fields := d.fields.push f }) : t ∈ d.types ∨ t = f.type := by
  simp only [types, Array.toList_push, List.map_append, List.map_cons, List.map_nil, List.mem_append,
    List.mem_singleton] at member ⊢
  tauto

theorem mem_types_pushLocal {l : Local}
    (member : t ∈ types { d with locals := d.locals.push l }) : t ∈ d.types ∨ t = l.type := by
  simp only [types, Array.toList_push, List.map_append, List.map_cons, List.map_nil, List.mem_append,
    List.mem_singleton] at member ⊢
  tauto

theorem mem_types_addMethod {modifiers : Modifiers} {params : List Ty} {returns : Ty}
    (member : t ∈ (d.addMethod modifiers params returns).types) :
    t ∈ d.types ∨ t = returns ∨ t ∈ params := by
  simp only [types, addMethod, appendMethod, Array.toList_push, List.map_append, List.map_cons,
    List.map_nil, List.flatten_append, List.flatten_cons, List.flatten_nil, List.append_nil,
    List.mem_append, List.mem_cons] at member ⊢
  tauto

theorem typeOf_mem_types (d : Declarations) (v : Var) : d.typeOf v ∈ d.types ∨ d.typeOf v = .void := by
  cases v with
  | field id =>
    rcases getD_mem_or_eq d.fields id default with member | same
    · exact .inl (List.mem_append_left _ (List.mem_append_left _ (List.mem_map_of_mem member)))
    · exact .inr (congrArg Field.type same)
  | localVar id =>
    rcases getD_mem_or_eq d.locals id default with member | same
    · exact .inl (List.mem_append_left _ (List.mem_append_right _ (List.mem_map_of_mem member)))
    · exact .inr (congrArg Local.type same)

theorem mem_types_of_method (d : Declarations) (m : MethodId) :
    ∀ t ∈ (d.method m).returns :: (d.method m).params, t ∈ d.types ∨ t = .void := by
  intro t member
  rcases getD_mem_or_eq d.methods m default with listed | same
  · exact .inl (List.mem_append_right _ (List.mem_flatten_of_mem (List.mem_map_of_mem listed) member))
  · rw [method, same] at member
    exact .inr (List.mem_singleton.1 member)

end Declarations

def Declarations.callee (d : Declarations) (m : MethodId) : Callee :=
  ⟨(d.method m).isStatic, none, (d.method m).name, some m⟩

namespace Program

/-- Constants are such as are drawn, and methods of the class are called as they are declared. -/
def Genuine (p : Program) : Node → Prop
  | .constant v => v.Drawn
  | .call callee _ _ =>
    ∀ m, callee.method = some m → m < p.declared.methods.size ∧ callee = p.declared.callee m
  | _ => True

theorem Genuine.later {p p' : Program} {node : Node} (genuine : p.Genuine node) (h : p.Extends p') :
    p'.Genuine node := by
  cases node with
  | call callee receiver args =>
    intro m called
    obtain ⟨inside, same⟩ := genuine m called
    refine ⟨Nat.lt_of_lt_of_le inside h.methods_size, same.trans ?_⟩
    have record := h.method inside
    exact (congrArg (fun r => Callee.mk r.isStatic none r.name (some m)) record.symm :)
  | _ => exact genuine

theorem genuine_of_makes {b : Builder} {args : List ExprId} {node : Node}
    (makes : b.Makes args node) (p : Program) : p.Genuine node := by
  cases makes with
  | literal _ _ drawn => exact drawn
  | boxing | onClass | onObject => exact fun m none => by contradiction
  | _ => trivial

/-- All types of the class, of its declarations and of its expressions, are of the stock, and its
expressions are genuine. -/
structure Stocked (knobs : Knobs) (p : Program) : Prop where
  settings : p.knobs = knobs
  declared : ∀ t ∈ p.declared.types, t.Stock knobs
  arena : ∀ n ∈ p.arena.toList, n.type.Stock knobs ∧ p.Genuine n.node

end Program

namespace Program.Stocked

variable {knobs : Knobs} {p p' : Program} {t : Ty}

theorem declare (stocked : p.Stocked knobs) (h : p.Extends p') (arena : p'.arena = p.arena)
    (types : ∀ t ∈ p'.declared.types, t ∈ p.declared.types ∨ t.Stock knobs) : p'.Stocked knobs where
  settings := h.knobs.trans stocked.settings
  declared t member := (types t member).elim (stocked.declared t) id
  arena n member := (stocked.arena n (arena ▸ member)).imp_right (·.later h)

theorem add (stocked : p.Stocked knobs) {node : Node} (stock : t.Stock knobs)
    (genuine : p.Genuine node) : (p.add node t).2.Stocked knobs where
  settings := stocked.settings
  declared := stocked.declared
  arena n member := by
    rcases mem_toList_push member with old | rfl
    · exact stocked.arena n old
    · exact ⟨stock, genuine⟩

theorem node (stocked : p.Stocked knobs) {e : ExprId} (inside : e < p.arena.size) :
    (p.typeOf e).Stock knobs ∧ p.Genuine (p.node e) := by
  unfold Program.typeOf Program.node
  rw [Array.getElem?_eq_getElem inside]
  exact stocked.arena _ (Array.getElem_mem_toList inside)

theorem typeOf_var (stocked : p.Stocked knobs) (v : Var) :
    (p.declared.typeOf v).Stock knobs := by
  rcases p.declared.typeOf_mem_types v with member | void
  · exact stocked.declared _ member
  · exact void ▸ .void

theorem method (stocked : p.Stocked knobs) (m : MethodId) :
    ∀ t ∈ (p.declared.method m).returns :: (p.declared.method m).params,
      t.Stock knobs := by
  intro t member
  rcases p.declared.mem_types_of_method m t member with listed | void
  · exact stocked.declared t listed
  · exact void ▸ .void

theorem addRead (stocked : p.Stocked knobs) (v : Var) : (p.addRead v).2.Stocked knobs :=
  stocked.add (stocked.typeOf_var v) trivial

theorem setInitialized (stocked : p.Stocked knobs) (v : Var) :
    Program.Stocked knobs { p with declared := p.declared.setInitialized v } :=
  stocked.declare (p.extends_setInitialized v) rfl fun _ member =>
    .inl (p.declared.types_setInitialized v ▸ member)

theorem addAssignment (stocked : p.Stocked knobs) (v : Var) (source : ExprId) :
    (p.addAssignment v source).2.Stocked knobs :=
  (stocked.setInitialized v).add (stocked.typeOf_var v) trivial

theorem addInitializedLocal (stocked : p.Stocked knobs) (modifiers : Modifiers)
    (stock : t.Stock knobs) :
    (p.addInitializedLocal modifiers t).2.Stocked knobs := by
  have declared : (p.withDeclared (p.declared.addLocal modifiers t)).Stocked knobs :=
    stocked.declare { Extends.refl p with localRecords := prefix_map_push .. } rfl fun u member => by
      rcases Declarations.mem_types_pushLocal member with old | rfl
      · exact .inl old
      · exact .inr stock
  exact declared.setInitialized _

theorem addCounter (stocked : p.Stocked knobs) : p.addCounter.2.Stocked knobs :=
  stocked.declare p.extends_addCounter rfl fun u member => by
    rcases Declarations.mem_types_pushLocal member with old | rfl
    · exact .inl old
    · exact .inr (.primitive .int)

theorem addInitializedField (stocked : p.Stocked knobs) (modifiers : Modifiers)
    (stock : t.Stock knobs) (e : ExprId) :
    (p.addInitializedField modifiers t e).Stocked knobs := by
  refine stocked.declare (p.extends_addInitializedField modifiers t e) rfl fun u member => ?_
  have member : u ∈ ((p.declared.addField modifiers t).setInitialized
      (.field p.declared.fields.size)).types := member
  rw [Declarations.types_setInitialized] at member
  rcases Declarations.mem_types_pushField member with old | rfl
  · exact .inl old
  · exact .inr stock

theorem addParameters (stocked : p.Stocked knobs) {params : List Ty}
    (stock : ∀ t ∈ params, t.Stock knobs) :
    (p.addParameters params).2.Stocked knobs := by
  induction params generalizing p with
  | nil => exact stocked
  | cons t rest ih =>
    apply ih
    · exact stocked.addInitializedLocal .none (stock t List.mem_cons_self)
    · exact fun u member => stock u (List.mem_cons_of_mem _ member)

theorem addMethod (stocked : p.Stocked knobs) (modifiers : Modifiers) {params : List Ty}
    {returns : Ty} (stock : ∀ t ∈ returns :: params, t.Stock knobs) :
    (p.withDeclared (p.declared.addMethod modifiers params returns)).Stocked knobs :=
  stocked.declare (p.extends_addMethod modifiers params returns) rfl fun t member =>
    (Declarations.mem_types_addMethod member).imp_right fun new => stock t (List.mem_cons.2 new)

theorem addCallEdge (stocked : p.Stocked knobs) {caller callee : MethodId} {d : Declarations}
    (recorded : p.declared.addCallEdge caller callee = .ok d) : (p.withDeclared d).Stocked knobs := by
  have h := extends_addCallEdge recorded
  obtain ⟨_, _, g, _, rfl⟩ := Declarations.addCallEdge_eq_ok_iff.1 recorded
  exact stocked.declare h rfl fun _ => .inl

theorem recordCost (stocked : p.Stocked knobs) (m : MethodId) (body : Block) :
    (p.recordCost m body).Stocked knobs :=
  stocked.declare (p.extends_recordCost m body) rfl fun _ member =>
    .inl (p.declared.types_setCost m _ ▸ member)

theorem coerced (stocked : p.Stocked knobs) (e : ExprId) (kind : Kind) :
    (p.coerced e kind).2.Stocked knobs := by
  unfold Program.coerced
  split
  · exact stocked
  · exact stocked.add (Ty.stock_of_kind? (kind_coercedType _ kind)) trivial

theorem coercedOperands (stocked : p.Stocked knobs) (use : OperatorUse) (left right : ExprId) :
    (p.coercedOperands use left right).2.Stocked knobs := by
  unfold Program.coercedOperands
  split
  · exact stocked
  · exact (stocked.coerced left _).coerced right _

theorem applied (stocked : p.Stocked knobs) (use : OperatorUse)
    (stock : t.Stock knobs) (left right : ExprId) :
    (p.applied use t left right).2.Stocked knobs := by
  have operation (e e' : ExprId) :
      ((p.coercedOperands use left right).2.addBinary use.op use.resultType e e').2.Stocked knobs :=
    (stocked.coercedOperands use left right).add use.stock_resultType trivial
  unfold Program.applied
  dsimp only
  split
  · exact operation _ _
  · exact (operation _ _).add stock trivial

theorem opening {site : Site} {caller : MethodId} {wanted : Option Ty} (stocked : p.Stocked knobs)
    (o : Opening site caller wanted p) (prepared : site.catalog.Prepared knobs)
    (stock : ∀ t, wanted = some t → t.Stock knobs) :
    o.program.Stocked knobs ∧ o.returns.Stock knobs := by
  have offered {t : Ty} (h : OfferedType site.catalog p.knobs t) :
      t.Stock knobs :=
    OfferedType.stock prepared (stocked.settings ▸ h)
  have params : ∀ t ∈ o.params, t.Stock knobs :=
    fun t member => offered (o.offered t member)
  have returns : o.returns.Stock knobs := by
    cases wanted with
    | none => exact (o.chosen rfl).elim (fun void => void ▸ .void) offered
    | some t =>
      rw [o.fits t rfl]
      exact stock t rfl
  have added : (p.withDeclared (p.declared.addMethod ⟨false, true, o.isStatic, false⟩ o.params
      o.returns)).Stocked knobs :=
    stocked.addMethod _ fun t member => by
      rcases List.mem_cons.1 member with rfl | param
      · exact returns
      · exact params t param
  exact ⟨(added.addCallEdge o.recorded).addParameters params, returns⟩

end Program.Stocked

def Task.types : Task → List Ty
  | .expr _ t | .argument _ t _ | .ending _ t => [t]
  | .arguments _ _ ts => ts
  | .callee _ _ wanted | .call _ wanted | .method _ _ wanted | .detour _ wanted => wanted.toList
  | .bound _ | .statement _ | .block _ _ => []

theorem Site.catalog_withoutNull (site : Site) (forbidNull : Bool) :
    (site.withoutNull forbidNull).catalog = site.catalog := by
  unfold Site.withoutNull
  split
  · rfl
  · rfl

theorem Program.genuine_callee {p : Program} {m : MethodId} (args : List ExprId)
    (inside : m < p.declared.methods.size) : p.Genuine (.call (p.declared.callee m) none args) := by
  intro k called
  obtain rfl : m = k := Option.some.inj called
  exact ⟨inside, rfl⟩

theorem Run.inside_of_callee {site : Site} {caller m : MethodId} {wanted : Option Ty}
    {p p' : Program} (run : Run (.callee site caller wanted) p m p') :
    m < p'.declared.methods.size := by
  cases run with
  | calleeFound callable _ _ recorded =>
    have inside := (Declarations.mem_callable.1 callable).1
    exact Nat.lt_of_lt_of_le inside (extends_addCallEdge recorded).methods_size
  | calleeNew _ _ new =>
    cases new with
    | @method _ _ _ _ _ _ o _ body last _ inner ending =>
      have h := inner.extends.trans ending.extends
      have complete := h.trans (extends_closeMethod _ o.method o.locals (body ++ last))
      exact Nat.lt_of_lt_of_le o.method_program.1 complete.methods_size

/-- A run makes everything of the stock that is at hand. -/
theorem Run.stocked {task : Task} {p p' : Program} {r : task.Outcome} (run : Run task p r p')
    {knobs : Knobs} :
    task.site.catalog.Prepared knobs → (∀ t ∈ task.types, t.Stock knobs) → p.Stocked knobs →
      p'.Stocked knobs := by
  induction run with
  | reuse | argumentReuse | boundReuse => exact fun _ _ stocked => stocked.addRead _
  | exprCall _ _ _ _ ih => exact ih
  | assign _ _ _ _ _ _ _ ih =>
    intro prepared _ stocked
    refine (ih prepared (fun u member => ?_) stocked).addAssignment _ _
    exact List.mem_singleton.1 member ▸ stocked.typeOf_var _
  | binary _ _ chosen _ _ ihLeft ihRight =>
    intro prepared stock stocked
    have left := ihLeft prepared (fun u member => ?_) stocked
    · have right := ihRight prepared (fun u member => ?_) left
      · exact right.applied _ (stock _ List.mem_cons_self) _ _
      · exact List.mem_singleton.1 member ▸ chosen.stock_right
    · exact List.mem_singleton.1 member ▸ OperatorUse.stock_leftType _
  | cast _ _ _ _ _ ih =>
    intro prepared stock stocked
    refine (ih prepared (fun u member => ?_) stocked).add (stock _ List.mem_cons_self) trivial
    exact List.mem_singleton.1 member ▸ .primitive _
  | build _ offered _ makes ih =>
    intro prepared stock stocked
    have serves := Catalog.serves_of_mem (List.mem_filter.1 offered).1
    have stock := stock _ List.mem_cons_self
    exact (ih prepared (serves.stock_parameters prepared stock) stocked).add
      (serves.stock_result prepared stock) (genuine_of_makes makes _)
  | exprAfter _ _ ihDetour ih =>
    intro prepared stock stocked
    exact ih prepared stock (ihDetour prepared stock stocked)
  | argumentExpr _ _ ih =>
    intro prepared stock stocked
    refine ih ?_ stock stocked
    exact (Site.catalog_withoutNull _ _).symm ▸ prepared
  | argumentDirect _ own _ none makes =>
    intro prepared stock stocked
    have serves := Catalog.serves_of_mem_ownBuilders own
    exact stocked.add (serves.stock_result prepared (stock _ List.mem_cons_self)) (genuine_of_makes makes _)
  | argumentsNil | endingVoid | noStatement | blockNil | noDetour => exact fun _ _ stocked => stocked
  | argumentsCons _ _ ihFirst ihRest =>
    intro prepared stock stocked
    refine ihRest prepared (fun u member => stock u (List.mem_cons_of_mem _ member)) ?_
    refine ihFirst prepared (fun u member => ?_) stocked
    exact List.mem_singleton.1 member ▸ stock _ List.mem_cons_self
  | calleeFound _ _ _ recorded => exact fun _ _ stocked => stocked.addCallEdge recorded
  | calleeNew _ _ _ ih => exact ih
  | @call _ _ m _ _ _ _ _ _ _ callee same _ args ihCallee ihArgs =>
    intro prepared stock stocked
    subst same
    have stocked := ihCallee prepared stock stocked
    have types := stocked.method m
    refine (ihArgs prepared (fun u member => types u (List.mem_cons_of_mem _ member)) stocked).add
      (types _ List.mem_cons_self) ?_
    exact (genuine_callee _ callee.inside_of_callee).later args.extends
  | @method _ _ _ _ _ _ o _ _ _ _ _ _ ihBody ihEnding =>
    intro prepared stock stocked
    obtain ⟨opened, returns⟩ := stocked.opening o prepared fun t wanted =>
      stock t (Option.mem_toList.2 wanted)
    have body := ihBody prepared (fun u none => by contradiction) opened
    have ending := ihEnding prepared (fun u member => List.mem_singleton.1 member ▸ returns) body
    exact (ending.recordCost _ _).declare (extends_addBody ..) rfl fun _ => .inl
  | endingValue _ _ ih => exact ih
  | boundLiteral type fits =>
    intro _ _ stocked
    subst type
    exact stocked.add (.restricted _) (Value.drawn_of_fits_restricted fits)
  | print _ type _ _ ih =>
    intro prepared _ stocked
    refine ih prepared (fun u member => ?_) stocked
    rw [List.mem_singleton.1 member]
    exact OfferedType.stock prepared (.flat type)
  | assignStatement _ _ _ _ _ ih =>
    intro prepared _ stocked
    refine (ih prepared (fun u member => ?_) stocked).addAssignment _ _
    exact List.mem_singleton.1 member ▸ stocked.typeOf_var _
  | callStatement _ _ _ _ ih => exact fun prepared _ => ih prepared fun u none => by contradiction
  | declare _ _ type _ _ ih =>
    intro prepared _ stocked
    have stock := OfferedType.stock prepared (stocked.settings ▸ type)
    exact (ih prepared (fun u member => List.mem_singleton.1 member ▸ stock)
      stocked).addInitializedLocal _ stock
  | declareField _ _ type _ _ ih =>
    intro prepared _ stocked
    have stock := OfferedType.stock prepared (stocked.settings ▸ type)
    exact (ih prepared (fun u member => List.mem_singleton.1 member ▸ stock)
      stocked).addInitializedField _ stock _
  | ifThen _ _ _ _ _ _ _ ihCondition ihBody =>
    intro prepared _ stocked
    refine ihBody prepared (fun u none => by contradiction) ?_
    exact ihCondition prepared (fun u member => List.mem_singleton.1 member ▸ .primitive _) stocked
  | ifElse _ _ _ _ _ _ _ _ _ _ ihCondition ihBody ihOtherwise =>
    intro prepared _ stocked
    refine ihOtherwise prepared (fun u none => by contradiction) ?_
    refine ihBody prepared (fun u none => by contradiction) ?_
    exact ihCondition prepared (fun u member => List.mem_singleton.1 member ▸ .primitive _) stocked
  | loop _ _ _ _ _ _ counter _ _ ihBound ihBody =>
    intro prepared _ stocked
    subst counter
    refine ihBody prepared (fun u none => by contradiction) ?_
    exact (ihBound prepared (fun u none => by contradiction) stocked).addCounter
  | statementAfter _ _ _ ihDetour ih =>
    intro prepared stock stocked
    exact ih prepared stock (ihDetour prepared (fun u none => by contradiction) stocked)
  | blockCons _ _ ihFirst ihRest =>
    intro prepared stock stocked
    exact ihRest prepared stock (ihFirst prepared stock stocked)
  | detourMethod _ _ _ _ ih => exact ih
  | detourCall _ _ _ _ few _ ihCallee ihArgs =>
    intro prepared stock stocked
    have callee := ihCallee prepared stock stocked
    refine ihArgs prepared (fun u member => ?_) callee
    exact callee.method _ u (List.mem_cons_of_mem _ (few.subset member))
  | detourBuilder _ offered few _ ih =>
    intro prepared stock stocked
    have serves := Catalog.serves_of_mem (List.mem_filter.1 offered).1
    have stock := stock _ List.mem_cons_self
    exact ih prepared (fun u member => serves.stock_parameters prepared stock u (few.subset member))
      stocked
  | detourTrans _ _ ihFirst ihSecond =>
    intro prepared stock stocked
    exact ihSecond prepared stock (ihFirst prepared stock stocked)

theorem Generated.stocked {c : Catalog} {seed : UInt64} {config : Config} {p : Program}
    (generated : Generated c seed config p) : p.Stocked config.knobs := by
  obtain ⟨length, body, q, _, run, rfl⟩ := generated.run
  have new : (Program.new config.className seed config.knobs).Stocked config.knobs := by
    refine ⟨rfl, fun t member => ?_, fun n none => by contradiction⟩
    exact List.mem_singleton.1 member ▸ .void
  have stocked := run.stocked generated.prepared (fun t none => by contradiction) new
  exact (stocked.recordCost entryId body).declare { Extends.refl _ with } rfl fun _ => .inl

end JavaSmith
