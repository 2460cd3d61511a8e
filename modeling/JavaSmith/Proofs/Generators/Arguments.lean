import JavaSmith.Proofs.Ensures
import JavaSmith.Proofs.Literals
import JavaSmith.Proofs.RunSound

/-! Builders and arguments. A builder that fits always makes its node, and an argument is missing only
at the depth limit, for a type without literals. -/
namespace JavaSmith

open Generator JavaSmith.Random

/-- A class in the middle of generation, to which at most `n` methods may still be added. -/
structure Stage (c : Catalog) (n : Nat) (p : Program) : Prop where
  sound : p.Sound c
  left : p.knobs.get .maxMethods - p.declared.userMethodCount ≤ n

variable {c : Catalog} {n : Nat} {p : Program}

theorem Stage.later {p' : Program} (stage : Stage c n p) (h : p.Extends p') (sound : p'.Sound c) :
    Stage c n p' where
  sound := sound
  left := by
    have left := stage.left
    have counted := h.userMethodCount
    rw [h.knobs]
    omega

theorem Run.stage {task : Task} {p' : Program} {r : task.Outcome} (run : Run task p r p')
    (stage : Stage c n p) (ready : task.Ready c p) : Stage c n p' ∧ task.Delivers p' r := by
  obtain ⟨sound, delivers⟩ := run.sound stage.sound ready
  exact ⟨stage.later run.extends sound, delivers⟩

theorem Program.Sound.isHole (sound : p.Sound c) {e : ExprId} (inside : e < p.arena.size) :
    p.isHole e = false := by
  have typed := sound.typed e inside
  unfold Program.isHole
  split
  · next hole =>
    rw [hole] at typed
    cases typed
  · rfl

theorem Ensures.isHole {β : Type} {Q : β → Program → Prop} {f : Bool → Gen β} {e : ExprId}
    (sound : p.Sound c) (inside : e < p.arena.size) (h : Ensures (f false) p Q) :
    Ensures (Gen.isHole e >>= f) p Q :=
  Ensures.view (by rwa [sound.isHole inside])

theorem ensures_randomLiteral {t : Ty} (wellFormed : t.WellFormed) (literal : t.hasLiteral = true) :
    Ensures (randomLiteral t) p fun v p' => (v ≠ .null ∧ v.fits t = true ∧ v.Drawn) ∧ p' = p := by
  cases t with
  | primitive k =>
    refine Ensures.lastDraw ((always_constant k).mono ?_)
    rintro v ⟨kind, drawn⟩
    refine ⟨?_, Value.fits_primitive kind, drawn⟩
    rintro rfl
    contradiction
  | restricted r =>
    refine Ensures.draw (always_inDomain wellFormed.isEmpty_eq_false) ?_
    rintro _ ⟨number, rfl, held⟩
    obtain ⟨v, made, fits⟩ := Value.integer?_fits wellFormed held
    rw [Option.bind_some, made]
    refine Ensures.pure ⟨⟨?_, fits, Value.drawn_of_fits_restricted fits⟩, rfl⟩
    rintro rfl
    contradiction
  | string =>
    refine Ensures.draw (Always.trivial _) fun s _ => ?_
    exact Ensures.pure ⟨⟨by simp, rfl, trivial⟩, rfl⟩
  | _ => contradiction

namespace Program

theorem lt_size_of_accepts {t : Ty} {e : ExprId} (accepted : t.accepts (p.typeOf e) = true) :
    e < p.arena.size := by
  by_contra outside
  have type : p.typeOf e = .void := by
    rw [typeOf, Array.getElem?_eq_none (Nat.le_of_not_lt outside)]
    rfl
  rw [type, Ty.accepts_void] at accepted
  contradiction

theorem Accepts.of_mem {ts : List Ty} {es : List ExprId} {t : Ty} (given : p.Accepts ts es)
    (all : ∀ u ∈ ts, u = t) {e : ExprId} (member : e ∈ es) : t.accepts (p.typeOf e) = true := by
  induction given with
  | nil => contradiction
  | cons first _ ih =>
    rcases List.mem_cons.1 member with rfl | later
    · exact all _ List.mem_cons_self ▸ first.2
    · exact ih (fun u inside => all u (List.mem_cons_of_mem _ inside)) later

theorem arrayRefusal?_eq_none {component : Ty} {k : Nat} {sizes : List ExprId} (positive : 0 < k)
    (given : p.Accepts (List.replicate k p.indexType) sizes) :
    p.arrayRefusal? (.array component k) sizes = none := by
  have length : sizes.length = k := by rw [← given.length_eq, List.length_replicate]
  refine arrayRefusal?_eq_none_iff.2 ⟨length, List.ne_nil_of_length_pos (length ▸ positive), ?_⟩
  exact fun e member => given.of_mem (fun u => List.eq_of_mem_replicate) member

end Program

namespace Builder

theorem mismatch?_eq_none_iff {ts : List Ty} {es : List ExprId} (length : ts.length = es.length) :
    mismatch? p ts es = none ↔ p.Accepts ts es := by
  induction ts generalizing es with
  | nil =>
    obtain rfl := List.length_eq_zero_iff.1 length.symm
    exact iff_of_true rfl .nil
  | cons t ts ih =>
    obtain ⟨e, es, rfl⟩ := List.exists_cons_of_length_eq_add_one length.symm
    rw [mismatch?]
    split
    · next accepted =>
      rw [ih (Nat.succ.inj length)]
      refine ⟨.cons ⟨Program.lt_size_of_accepts accepted, accepted⟩, fun given => ?_⟩
      cases given with
      | cons _ later => exact later
    · next refused =>
      refine iff_of_false (Option.some_ne_none _) fun given => ?_
      cases given with
      | cons first _ => exact refused first.2

theorem refusal?_eq_none_iff {b : Builder} {args : List ExprId} :
    b.refusal? p args = none ↔ p.Accepts b.parameters args := by
  unfold refusal?
  split
  · next wrong =>
    exact iff_of_false (Option.some_ne_none _) fun given => wrong given.length_eq
  · next right => exact mismatch?_eq_none_iff (not_not.1 right)

/-- A builder that takes the arguments makes its node. -/
theorem ensures_build {b : Builder} {args : List ExprId} {t : Ty} (index : c.indexType = p.indexType)
    (wellFormed : t.WellFormed) (serves : c.Serves t b) (given : p.Accepts b.parameters args) :
    Ensures (b.build args) p fun e p' =>
      ∃ node, b.Makes args node ∧ e = (p.add node b.result).1 ∧ p' = (p.add node b.result).2 := by
  have taken : b.refusal? p args = none := refusal?_eq_none_iff.2 given
  refine Ensures.view ?_
  rw [taken]
  dsimp only
  unfold node
  cases b with
  | null u =>
    obtain ⟨rfl, nullable⟩ := serves
    cases given
    have fits : Value.fits .null u = true := by
      unfold Value.fits
      exact nullable
    exact Ensures.lastUnless (if_pos fits) ⟨_, .null, rfl, rfl⟩
  | literal u =>
    obtain ⟨rfl, literal⟩ := serves
    cases given
    refine Ensures.bind (ensures_randomLiteral wellFormed literal) ?_
    rintro v _ ⟨⟨notNull, fits, drawn⟩, rfl⟩
    exact Ensures.lastUnless (if_pos fits) ⟨_, .literal notNull fits drawn, rfl, rfl⟩
  | boxing k => exact Ensures.last ⟨_, .boxing, rfl, rfl⟩
  | construct u params => exact Ensures.last ⟨_, .construct, rfl, rfl⟩
  | newArray =>
    obtain ⟨rfl, rfl, component, k, rfl⟩ := serves
    have given : p.Accepts (List.replicate k p.indexType) args := index ▸ given
    exact Ensures.lastUnless (Program.arrayRefusal?_eq_none wellFormed.1 given)
      ⟨_, .newArray, rfl, rfl⟩
  | external op =>
    dsimp only
    split
    · next static => exact Ensures.last ⟨_, .onClass static, rfl, rfl⟩
    · next onObject =>
      have static : op.isStatic = false := by simpa using onObject
      have parameters : op.parameters = op.declaring :: op.params := by
        rw [Operation.parameters, static]
        rfl
      rw [Builder.parameters, parameters] at given
      cases given with
      | cons _ _ => exact Ensures.last ⟨_, .onObject static, rfl, rfl⟩

end Builder

namespace Site

theorem scope_withoutNull (site : Site) (forbidNull : Bool) :
    (site.withoutNull forbidNull).scope = site.scope := by
  unfold Site.withoutNull
  split
  · rfl
  · rfl

theorem exprLevels_withoutNull (site : Site) (forbidNull : Bool) :
    (site.withoutNull forbidNull).ctx.exprLevels = site.ctx.exprLevels := by
  unfold Site.withoutNull
  split
  · rfl
  · rfl

end Site

namespace Generator

/-- What is asked of a generator of expressions at sites with so many levels left, in classes to which
at most `n` methods may still be added. -/
def ExprsAt (c : Catalog) (n levels : Nat) (sub : ExprGen) : Prop :=
  ∀ site t p, Stage c n p → site.Good c p → t.Valued → site.ctx.exprLevels = levels →
    Ensures (sub site t) p (Run (.expr site t) p)

def OperandsAt (c : Catalog) (n : Nat) (site : Site) (sub : ExprGen) : Prop :=
  site.ctx.hasExprLevel = true → ExprsAt c n (site.ctx.exprLevels - 1) sub

variable {site : Site} {forbidNull : Bool} {sub : ExprGen}

theorem always_directBuilder (c : Catalog) (t : Ty) (forbidNull : Bool) :
    Always (Random.chooseOneByOne ((c.ownBuilders t).filter fun b =>
        b.parameters.isEmpty && !(b.isNull && forbidNull))) fun o =>
      o.elim (t.hasLiteral = false) fun b =>
        b ∈ c.ownBuilders t ∧ b.parameters = [] ∧ (b.isNull && forbidNull) = false := by
  refine (always_chooseOneByOne _).mono ?_
  rintro (_ | b) ⟨chosen, missing⟩
  · refine Bool.eq_false_iff.2 fun literal => ?_
    have own : Builder.literal t ∈ c.ownBuilders t := by
      cases t <;> first | contradiction | simp [Catalog.ownBuilders]
    have := List.filter_eq_nil_iff.1 (missing rfl) _ own
    simp [Builder.parameters, Builder.isNull] at this
  · obtain ⟨own, direct⟩ := List.mem_filter.1 (chosen b rfl)
    simp only [Bool.and_eq_true, List.isEmpty_iff, Bool.not_eq_true'] at direct
    exact ⟨own, direct⟩

def ArgumentTried (site : Site) (t : Ty) (forbidNull : Bool) (p : Program) (o : Option ExprId)
    (p' : Program) : Prop :=
  o.elim (t.hasLiteral = false ∧ p' = p) fun e => Run (.argument site t forbidNull) p e p'

def ArgumentsAt (c : Catalog) (n : Nat) (site : Site) (argument : ArgumentGen) : Prop :=
  ∀ t forbidNull p, Stage c n p → site.Good c p → t.Valued →
    Ensures (argument t forbidNull) p (ArgumentTried site t forbidNull p)

theorem argumentsAt (operands : OperandsAt c n site sub) :
    ArgumentsAt c n site (argument sub site) := by
  intro t forbidNull p stage good valued
  refine Ensures.drawDeclared (Scope.always_initializedOfType _ _ _ _) ?_
  rintro (_ | v) found
  · dsimp only
    split
    · next level =>
      have made := operands level (site.deeper.withoutNull forbidNull) t p stage
        (good.deeper.withoutNull forbidNull) valued ?_
      · refine Ensures.bind made fun e p' run => ?_
        obtain ⟨stage', made⟩ := run.stage stage ⟨good.deeper.withoutNull forbidNull, valued⟩
        refine Ensures.isHole stage'.sound made.inside ?_
        exact Ensures.pure (.argumentExpr level run)
      · rw [Site.exprLevels_withoutNull]
        exact site.ctx.exprLevels_deeper
    · next limit =>
      refine Ensures.draw (always_directBuilder _ _ _) ?_
      rintro (_ | b) chosen
      · exact Ensures.pure ⟨chosen, rfl⟩
      · obtain ⟨own, direct, nonnull⟩ := chosen
        have serves := good.serves_of_mem_ownBuilders own
        refine Ensures.bind (Builder.ensures_build good.prepared.indexType valued.wellFormed serves ?_) ?_
        · rw [direct]
          exact .nil
        · rintro _ _ ⟨node, makes, rfl, rfl⟩
          exact Ensures.pure (.argumentDirect (by simpa using limit) own nonnull direct makes)
  · obtain ⟨offered, initialized, accepted⟩ := found v rfl
    have scope := site.deeper.scope_withoutNull forbidNull
    refine Ensures.step ?_
    exact Ensures.pure (.argumentReuse (scope ▸ offered) initialized accepted)

/-- Where an argument is missing, those before it have been made, and it is of a type without
literals. -/
theorem ensures_arguments {argument : ArgumentGen} {ts : List Ty} (stage : Stage c n p)
    (good : site.Good c p) (valued : ∀ t ∈ ts, t.Valued) (each : ArgumentsAt c n site argument) :
    Ensures (arguments argument forbidNull ts) p fun o p' =>
      o.elim
        ((∃ t ∈ ts, t.hasLiteral = false) ∧
          ∃ made es, made <+: ts ∧ Run (.arguments site forbidNull made) p es p')
        fun es => Run (.arguments site forbidNull ts) p es p' := by
  induction ts generalizing p with
  | nil => exact Ensures.pure .argumentsNil
  | cons t rest ih =>
    have first := valued t List.mem_cons_self
    refine Ensures.bind (each t forbidNull p stage good first) ?_
    rintro (_ | e) p' outcome
    · obtain ⟨none, rfl⟩ := outcome
      refine Ensures.pure ⟨?_, ?_⟩
      · exact ⟨t, List.mem_cons_self, none⟩
      · exact ⟨[], [], List.nil_prefix, .argumentsNil⟩
    · have run : Run (.argument site t forbidNull) p e p' := outcome
      obtain ⟨stage', _⟩ := run.stage stage ⟨good, first⟩
      refine Ensures.bind (ih stage' (good.later run.extends)
        (fun u member => valued u (List.mem_cons_of_mem _ member))) ?_
      rintro (_ | es) p'' others
      · obtain ⟨⟨u, member, none⟩, made, es, before, runs⟩ := others
        refine Ensures.pure ⟨?_, ?_⟩
        · exact ⟨u, List.mem_cons_of_mem _ member, none⟩
        · exact ⟨t :: made, e :: es, List.cons_prefix_cons.2 ⟨rfl, before⟩, .argumentsCons run runs⟩
      · exact Ensures.pure (.argumentsCons run others)

end Generator
end JavaSmith
