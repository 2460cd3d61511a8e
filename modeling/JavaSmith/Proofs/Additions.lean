import JavaSmith.Proofs.Ensures
import JavaSmith.Proofs.Heights

/-! What generators add to a class. Fields and complete methods stay, and the expressions at the roots of
new ones have low trees. Nothing is asked of the class or the stream, so nothing is said of a
generator that fails. -/
namespace JavaSmith

variable {limit m n : Nat} {p p' p'' : Program}

/-- The second class is a later state of the first, and expressions at the roots of what was added have
trees lower than the limit. -/
structure Program.Grows (limit : Nat) (p p' : Program) : Prop where
  later : p.Extends p'
  fields : ∀ f ∈ p'.fields, f ∈ p.fields ∨ p'.Low limit f.initializer
  methods : ∀ m ∈ p'.methods, m ∈ p.methods ∨ m.body.All (p'.Low limit)

namespace Program.Grows

theorem of_extends (h : p.Extends p') (fields : p'.fields = p.fields)
    (methods : p'.methods = p.methods) : p.Grows limit p' where
  later := h
  fields _ member := .inl (fields ▸ member)
  methods _ member := .inl (methods ▸ member)

theorem refl (limit : Nat) (p : Program) : p.Grows limit p := of_extends (.refl p) rfl rfl

theorem low {e : ExprId} (h : p.Grows limit p') (low : p.Low n e) : p'.Low n e := low.later h.later

theorem all {b : Block} (h : p.Grows limit p') (all : b.All (p.Low n)) : b.All (p'.Low n) :=
  all.mono fun _ => h.low

theorem trans (h : p.Grows limit p') (h' : p'.Grows limit p'') : p.Grows limit p'' where
  later := h.later.trans h'.later
  fields f member := by
    rcases h'.fields f member with before | low
    · exact (h.fields f before).imp_right h'.low
    · exact .inr low
  methods m member := by
    rcases h'.methods m member with before | low
    · exact (h.methods m before).imp_right h'.all
    · exact .inr low

theorem add (p : Program) (node : Node) (t : Ty) : p.Grows limit (p.add node t).2 :=
  of_extends (p.extends_add node t) rfl rfl

theorem addAssignment (p : Program) (v : Var) (source : ExprId) :
    p.Grows limit (p.addAssignment v source).2 :=
  of_extends (p.extends_addAssignment v source) rfl rfl

theorem addInitializedField {initializer : ExprId} (modifiers : Modifiers) (t : Ty)
    (low : p.Low limit initializer) :
    p.Grows limit (p.addInitializedField modifiers t initializer) where
  later := p.extends_addInitializedField modifiers t initializer
  fields f member := by
    rcases Array.mem_push.1 member with before | rfl
    · exact .inl before
    · exact .inr (low.later (p.extends_addInitializedField modifiers t initializer))
  methods m member := .inl member

theorem addBody {m : MethodDeclaration} (low : m.body.All (p.Low limit)) :
    p.Grows limit (p.addBody m) where
  later := p.extends_addBody m
  fields f member := .inl member
  methods m' member := by
    rcases Array.mem_push.1 member with before | rfl
    · exact .inl before
    · exact .inr (low.mono fun e low => low.later (p.extends_addBody _))

end Program.Grows

/-- Wherever the generator succeeds on the class, the class grows within the limit, and the result and
the class left have the property. -/
def Adds (limit : Nat) (x : Gen α) (p : Program) (Q : α → Program → Prop) : Prop :=
  ∀ stream a s, x ⟨p, stream⟩ = .ok a s → p.Grows limit s.program ∧ Q a s.program

namespace Adds

variable {α β : Type} {Q : β → Program → Prop} {R : α → Program → Prop} {x : Gen α} {f : α → Gen β}

theorem pure {b : β} (h : Q b p) : Adds limit (pure b) p Q := by
  intro stream a s done
  obtain ⟨rfl, rfl⟩ := EStateM.Result.ok.inj done
  exact ⟨.refl limit p, h⟩

theorem fail (b : Breach) : Adds limit (Gen.fail b) p Q := fun stream a s done => by contradiction

theorem bind (h : Adds limit x p R)
    (h' : ∀ a p', p.Grows limit p' → R a p' → Adds limit (f a) p' Q) : Adds limit (x >>= f) p Q := by
  intro stream b s' done
  change EStateM.bind x f ⟨p, stream⟩ = _ at done
  unfold EStateM.bind at done
  cases first : x ⟨p, stream⟩ with
  | error fault s =>
    rw [first] at done
    contradiction
  | ok a s =>
    rw [first] at done
    obtain ⟨grows, r⟩ := h stream a s first
    obtain ⟨grows', q⟩ := h' a s.program grows r s.stream b s' done
    exact ⟨grows.trans grows', q⟩

theorem mono {x : Gen β} {R : β → Program → Prop} (h : Adds limit x p R)
    (imp : ∀ b p', R b p' → Q b p') : Adds limit x p Q := by
  intro stream b s done
  exact (h stream b s done).imp_right (imp b s.program)

theorem ite {condition : Prop} [Decidable condition] {x y : Gen β}
    (h : condition → Adds limit x p Q) (h' : ¬condition → Adds limit y p Q) :
    Adds limit (if condition then x else y) p Q := by
  split
  · next holds => exact h holds
  · next fails => exact h' fails

theorem either {condition : Prop} [Decidable condition] {x y : Gen α}
    (h : Adds limit (if condition then x else y) p R)
    (h' : ∀ a p', p.Grows limit p' → R a p' → Adds limit (f a) p' Q) :
    Adds limit (if condition then x >>= f else y >>= f) p Q := by
  split at h
  · next holds =>
    rw [if_pos holds]
    exact bind h h'
  · next fails =>
    rw [if_neg fails]
    exact bind h h'

theorem lastDraw {d : Random.Draw β} (h : ∀ b, Q b p) : Adds limit (Gen.draw d) p Q := by
  intro stream b s done
  obtain ⟨rfl, rfl⟩ := EStateM.Result.ok.inj done
  exact ⟨.refl limit p, h _⟩

theorem draw {d : Random.Draw α} (h : ∀ a, Adds limit (f a) p Q) :
    Adds limit (Gen.draw d >>= f) p Q :=
  fun stream => h (d stream).1 (d stream).2

theorem drawDeclared {d : Declarations → Random.Draw α} (h : ∀ a, Adds limit (f a) p Q) :
    Adds limit (Gen.drawDeclared d >>= f) p Q :=
  draw (d := d p.declared) h

theorem last {g : Program → β × Program} (grows : p.Grows limit (g p).2) (h : Q (g p).1 (g p).2) :
    Adds limit (Gen.step g) p Q := by
  intro stream b s done
  obtain ⟨rfl, rfl⟩ := EStateM.Result.ok.inj done
  exact ⟨grows, h⟩

theorem step {g : Program → α × Program} (grows : p.Grows limit (g p).2)
    (h : Adds limit (f (g p).1) (g p).2 Q) : Adds limit (Gen.step g >>= f) p Q := by
  intro stream b s done
  exact (h stream b s done).imp_left grows.trans

theorem lastUnless {refusal : Program → Option Breach} {g : Program → β × Program}
    (grows : p.Grows limit (g p).2) (h : Q (g p).1 (g p).2) :
    Adds limit (Gen.stepUnless refusal g) p Q := by
  intro stream b s done
  unfold Gen.stepUnless at done
  cases refused : refusal p with
  | some breach =>
    simp [refused] at done
  | none =>
    rw [refused] at done
    exact last grows h stream b s done

theorem view {g : Program → α} (h : Adds limit (f (g p)) p Q) : Adds limit (Gen.view g >>= f) p Q :=
  fun stream => h stream

theorem lastView {g : Program → β} (h : Q (g p) p) : Adds limit (Gen.view g) p Q := by
  intro stream b s done
  obtain ⟨rfl, rfl⟩ := EStateM.Result.ok.inj done
  exact ⟨.refl limit p, h⟩

theorem roll (k : Knob) : Adds limit (Gen.roll k) p fun _ _ => True := by
  unfold Gen.roll
  apply view
  exact lastDraw fun _ => trivial

theorem addCallEdge (caller callee : MethodId) :
    Adds limit (Gen.addCallEdge caller callee) p fun _ _ => True := by
  intro stream b s done
  unfold Gen.addCallEdge at done
  cases recorded : p.declared.addCallEdge caller callee with
  | error breach =>
    simp [recorded] at done
  | ok declared =>
    simp only [recorded] at done
    obtain ⟨rfl, rfl⟩ := EStateM.Result.ok.inj done
    exact ⟨.of_extends (Program.extends_addCallEdge recorded) rfl rfl, trivial⟩

theorem unlessHole {e : ExprId} {x : Gen (Option β)} {R : Program → β → Prop}
    (h : Adds limit x p fun o p' => o.elim True (R p')) :
    Adds limit (Gen.isHole e >>= fun hole => if hole then Pure.pure none else x) p
      fun o p' => o.elim True (R p') := by
  apply view
  apply ite
  · exact fun _ => pure trivial
  · exact fun _ => h

theorem lower {x : Gen (Option ExprId)} (h : Adds limit x p fun o p' => o.elim True (p'.Low m))
    (le : m ≤ n) : Adds limit x p fun o p' => o.elim True (p'.Low n) := by
  apply h.mono
  rintro (_ | e) p' low
  · exact trivial
  · exact low.mono le

theorem ensures {x : Gen β} {R : β → Program → Prop} (h : Adds limit x p Q) (ok : Ensures x p R) :
    Ensures x p fun b p' => (p.Grows limit p' ∧ Q b p') ∧ R b p' := by
  intro stream
  obtain ⟨b, s, done, r⟩ := ok stream
  exact ⟨b, s, done, h stream b s done, r⟩

end Adds

/-! One more node. It is one step higher than its operands, where `n` is zero for a node without any. -/

namespace Generator

theorem adds_node {g : Program → ExprId × Program} {node : Node} {t : Ty} (same : g p = p.add node t)
    (operands : ∀ o ∈ node.operands, p.Low n o) :
    Adds limit (Gen.step g) p fun e p' => p'.Low (n + 1) e := by
  apply Adds.last
  · rw [same]
    exact .add p node t
  · rw [same]
    exact .add t operands

theorem adds_hole (p : Program) : Adds limit Gen.hole p fun e p' => p'.Low (n + 1) e :=
  adds_node rfl (by simp [Node.operands])

theorem adds_leaf {g : Program → ExprId × Program} {node : Node} {t : Ty} (same : g p = p.add node t)
    (leaf : node.operands = []) : Adds limit (Gen.step g) p fun e p' => p'.Low 1 e :=
  adds_node (n := 0) same (by simp [leaf])

theorem adds_nodeUnless {refusal : Program → Option Breach} {g : Program → ExprId × Program}
    {node : Node} {t : Ty} (same : g p = p.add node t) (operands : ∀ o ∈ node.operands, p.Low n o) :
    Adds limit (Gen.stepUnless refusal g) p fun e p' => p'.Low (n + 1) e := by
  apply Adds.lastUnless
  · rw [same]
    exact .add p node t
  · rw [same]
    exact .add t operands

theorem adds_assign {v : Var} {source : ExprId} (low : p.Low n source) :
    Adds limit (Gen.assign v source) p fun e p' => p'.Low (n + 1) e := by
  have initialized := low.later (p.extends_setInitialized v)
  apply Adds.lastUnless (.addAssignment p v source)
  apply Program.Low.add
  simpa [Node.operands] using initialized

end Generator
end JavaSmith
