import JavaSmith.Proofs.Run

/-! What a generator does whatever the stream: that it succeeds, and what holds of its result and of
the class it leaves. There is a rule for each way in which steps are put together. -/
namespace JavaSmith

/-- Whatever the stream, the generator succeeds on the class, and its result and the class it leaves
have the property. -/
def Ensures (x : Gen α) (p : Program) (Q : α → Program → Prop) : Prop :=
  ∀ stream, ∃ a s, x ⟨p, stream⟩ = .ok a s ∧ Q a s.program

namespace Ensures

variable {α β : Type} {p : Program} {Q : β → Program → Prop}

theorem pure {b : β} (h : Q b p) : Ensures (pure b) p Q := fun stream => ⟨b, ⟨p, stream⟩, rfl, h⟩

theorem bind {x : Gen α} {f : α → Gen β} {R : α → Program → Prop} (h : Ensures x p R)
    (h' : ∀ a p', R a p' → Ensures (f a) p' Q) : Ensures (x >>= f) p Q := by
  intro stream
  obtain ⟨a, s, first, r⟩ := h stream
  obtain ⟨b, s', second, q⟩ := h' a s.program r s.stream
  refine ⟨b, s', ?_, q⟩
  change EStateM.bind x f ⟨p, stream⟩ = _
  rw [EStateM.bind, first]
  exact second

theorem either {condition : Prop} [Decidable condition] {x y : Gen α} {f : α → Gen β}
    {R : α → Program → Prop} (h : Ensures (if condition then x else y) p R)
    (h' : ∀ a p', R a p' → Ensures (f a) p' Q) :
    Ensures (if condition then x >>= f else y >>= f) p Q := by
  split at h
  · next holds =>
    rw [if_pos holds]
    exact bind h h'
  · next fails =>
    rw [if_neg fails]
    exact bind h h'

theorem mono {x : Gen β} {R : β → Program → Prop} (h : Ensures x p R)
    (imp : ∀ b p', R b p' → Q b p') : Ensures x p Q := by
  intro stream
  obtain ⟨b, s, done, r⟩ := h stream
  exact ⟨b, s, done, imp b s.program r⟩

theorem lastDraw {d : Random.Draw β} {P : β → Prop} (always : Random.Always d P) :
    Ensures (Gen.draw d) p fun b p' => P b ∧ p' = p :=
  fun stream => ⟨(d stream).1, ⟨p, (d stream).2⟩, rfl, always stream, rfl⟩

theorem draw {d : Random.Draw α} {f : α → Gen β} {P : α → Prop} (always : Random.Always d P)
    (h : ∀ a, P a → Ensures (f a) p Q) : Ensures (Gen.draw d >>= f) p Q := by
  refine bind (lastDraw always) ?_
  rintro a _ ⟨drawn, rfl⟩
  exact h a drawn

theorem drawDeclared {d : Declarations → Random.Draw α} {f : α → Gen β} {P : α → Prop}
    (always : Random.Always (d p.declared) P) (h : ∀ a, P a → Ensures (f a) p Q) :
    Ensures (Gen.drawDeclared d >>= f) p Q :=
  draw (d := d p.declared) always h

theorem view {g : Program → α} {f : α → Gen β} (h : Ensures (f (g p)) p Q) :
    Ensures (Gen.view g >>= f) p Q := by
  refine bind (R := fun a p' => a = g p ∧ p' = p) ?_ ?_
  · exact fun stream => ⟨g p, ⟨p, stream⟩, rfl, rfl, rfl⟩
  · rintro _ _ ⟨rfl, rfl⟩
    exact h

theorem last {g : Program → β × Program} (h : Q (g p).1 (g p).2) : Ensures (Gen.step g) p Q :=
  fun stream => ⟨(g p).1, ⟨(g p).2, stream⟩, rfl, h⟩

theorem step {g : Program → α × Program} {f : α → Gen β} (h : Ensures (f (g p).1) (g p).2 Q) :
    Ensures (Gen.step g >>= f) p Q := by
  refine bind (last (Q := fun a p' => a = (g p).1 ∧ p' = (g p).2) ⟨rfl, rfl⟩) ?_
  rintro _ _ ⟨rfl, rfl⟩
  exact h

theorem lastUnless {refusal : Program → Option Breach} {g : Program → β × Program}
    (allowed : refusal p = none) (h : Q (g p).1 (g p).2) :
    Ensures (Gen.stepUnless refusal g) p Q := by
  intro stream
  refine ⟨(g p).1, ⟨(g p).2, stream⟩, ?_, h⟩
  unfold Gen.stepUnless
  dsimp only
  rw [allowed]
  rfl

theorem stepUnless {refusal : Program → Option Breach} {g : Program → α × Program} {f : α → Gen β}
    (allowed : refusal p = none) (h : Ensures (f (g p).1) (g p).2 Q) :
    Ensures (Gen.stepUnless refusal g >>= f) p Q := by
  refine bind (lastUnless (Q := fun a p' => a = (g p).1 ∧ p' = (g p).2) allowed ⟨rfl, rfl⟩) ?_
  rintro _ _ ⟨rfl, rfl⟩
  exact h

theorem knob {k : Knob} {f : Nat → Gen β} (h : Ensures (f (p.knobs.get k)) p Q) :
    Ensures (Gen.knob k >>= f) p Q :=
  view h

theorem roll (k : Knob) :
    Ensures (Gen.roll k) p fun b p' =>
      (b = true → p.Allows k) ∧ (b = false → p.knobs.probability k < 100) ∧ p' = p := by
  unfold Gen.roll
  refine view ?_
  exact fun stream => ⟨_, _, rfl, (Random.always_roll _ stream).1, (Random.always_roll _ stream).2, rfl⟩

end Ensures
end JavaSmith
